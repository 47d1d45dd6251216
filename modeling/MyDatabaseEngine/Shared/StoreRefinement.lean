/-
**Trees and heaps in one file are what they would be on their own.**

A run is any sequence of calls of any trees and heaps on one pool; at any time all pages may be
flushed and the process may start again on the file. The pages then show some trees and heaps on
their own (`Depicts`), and every call answers as these do (`StoreCall.refines`). Hence
`storeRun_refines`: what clients are told in any run is what they would be told by stores that share
nothing, and lose nothing.
-/

import MyDatabaseEngine.Shared.IdealStores
import MyDatabaseEngine.Shared.SharedPool

namespace MyDb

open Outcome BufferPool BPlusTree SlotArray

/-- The slots of a page, if it is there. -/
def BufferPool.slotsOf (pool : BufferPool) (pageId : Nat) : List (Option Row) :=
  (pool.content pageId).elim [] Page.slots

theorem BufferPool.slotsOf_of_content {pool : BufferPool} {pageId : Nat} {page : Page}
    (holds : pool.content pageId = some page) : pool.slotsOf pageId = page.slots := by
  unfold slotsOf
  rw [holds]
  rfl

namespace TableHeap

/-! ### Scans -/

variable {snapshot : Option MvccSnapshot} {pid : Nat} {page : Page}
  {results found : List (RowId × Row)}

theorem shown_eq (snapshot : Option MvccSnapshot) (row : Row) :
    (snapshot.all fun snapshot =>
      snapshot.isVisible { data := row, createdBy := 1, deletedBy := 0 }) =
      IdealStores.shown snapshot := by
  unfold IdealStores.shown MvccSnapshot.isVisible
  cases snapshot with
  | none => rfl
  | some snapshot => simp

theorem listing_slots (pid : Nat) (page : Page) :
    IdealStores.listing pid page.slots = listing pid page := by
  unfold IdealStores.listing listing listed
  simp only [Page.length_slots, Page.read_slots]

/-- **A scan with a snapshot** lists all rows, -/
theorem scanSlots_of_shown (isShown : IdealStores.shown snapshot = true) (count : Nat) :
    ∀ {i : Nat} {results : List (RowId × Row)},
      scanSlots snapshot pid page count i results = scanSlots none pid page count i results := by
  induction count with
  | zero => exact rfl
  | succ count ih =>
    intro i results
    rw [scanSlots, scanSlots]
    refine bind_congr fun entry => ?_
    split
    · exact ih
    · refine bind_congr fun data => ?_
      simp only [shown_eq, isShown]
      exact ih

/-- or none. -/
theorem scanSlots_of_hidden (hidden : IdealStores.shown snapshot = false) (count : Nat) :
    ∀ {i : Nat}, scanSlots snapshot pid page count i results = .ok found → found = results := by
  induction count with
  | zero => exact fun ran => (Except.ok.inj ran).symm
  | succ count ih =>
    intro i ran
    rw [scanSlots] at ran
    cases read : page.slotEntry i with
    | error fault =>
      rw [read] at ran
      cases ran
    | ok entry =>
      rw [read] at ran
      change (if entry.valid = 0 then _ else _) = _ at ran
      by_cases dead : entry.valid = 0
      · rw [if_pos dead] at ran
        exact ih ran
      · rw [if_neg dead] at ran
        cases peeked : page.peek entry.offset entry.length with
        | error fault =>
          rw [peeked] at ran
          cases ran
        | ok data =>
          rw [peeked] at ran
          change scanSlots _ _ _ _ _ (if (snapshot.all fun _ => _) = true then _ else _) = _ at ran
          rw [shown_eq, hidden] at ran
          exact ih ran

/-- **What a scan lists**, if it returns: the rows of every page it comes to. -/
theorem scanPages_lists (count : Nat) :
    ∀ {pid : Nat} {pool : BufferPool} {results : List (RowId × Row)},
    pool.Consistent → (∀ id page, pool.content id = some page → page.WellSlotted) →
    Ends (scanPages snapshot count pid results) pool
      (fun found _ => found = results ++
        if IdealStores.shown snapshot then
          (List.range' pid count).flatMap fun pageId =>
            IdealStores.listing pageId (pool.slotsOf pageId)
        else [])
      (fun _ _ => True) := by
  induction count with
  | zero =>
    intro pid pool results _ _
    show results = results ++ if IdealStores.shown snapshot then [] else []
    rw [ite_self, List.append_nil]
  | succ count ih =>
    intro pid pool results ok slotted
    refine scanPages_ends ok (fun _ _ _ => trivial) fun page holds _ => ⟨fun _ _ _ => trivial, ?_⟩
    intro results' pool' ran visits
    have slots : pool'.slotsOf = pool.slotsOf := by
      unfold slotsOf
      rw [visits.content]
    refine (ih visits.consistent (visits.content ▸ slotted)).mono ?_ fun _ _ _ => trivial
    rintro found _ rfl
    rw [slots]
    cases isShown : IdealStores.shown snapshot with
    | true =>
      rw [scanSlots_of_shown isShown, scanSlots_listing (slotted pid page holds)] at ran
      rw [← Except.ok.inj ran, ← listing_slots, if_pos rfl, if_pos rfl, List.range'_succ,
        List.flatMap_cons,
        List.append_assoc, slotsOf_of_content holds]
    | false =>
      rw [scanSlots_of_hidden isShown _ ran, if_neg Bool.false_ne_true, if_neg Bool.false_ne_true]

end TableHeap

/-- **The pages show these stores.** -/
structure Depicts (pool : BufferPool) (stores : Stores) (ideal : IdealStores) : Prop where
  trees : ideal.trees = stores.trees
  heaps : ideal.heaps = stores.heaps
  bare : ∀ tree ∈ stores.trees, (stores.index tree).bare = (ideal.index tree).bare
  slots : ideal.slots = pool.slotsOf
  named : ∀ heap ∈ stores.heaps, ∀ page, pool.content heap.firstPageId = some page →
    page.id = heap.firstPageId

namespace Depicts

variable {pool pool' : BufferPool} {stores : Stores} {ideal : IdealStores} {tree tree' : BTree}
  {heap : TableHeap} {pageId : Nat} {page page' : Page}

theorem slotsOf_update (content : pool'.content = Function.update pool.content pageId (some page)) :
    pool'.slotsOf = Function.update pool.slotsOf pageId page.slots := by
  funext other
  unfold slotsOf
  rw [content]
  by_cases same : other = pageId
  · rw [same, Function.update_self, Function.update_self]
    rfl
  · rw [Function.update_of_ne same, Function.update_of_ne same]

theorem bare_indexOn (depicts : Depicts pool stores ideal) (member : tree ∈ stores.trees) :
    (stores.indexOn pool tree).bare = (ideal.index tree).bare := depicts.bare tree member

/-- Nothing has changed. -/
theorem of_content (depicts : Depicts pool stores ideal) (content : pool'.content = pool.content) :
    Depicts pool' stores ideal where
  trees := depicts.trees
  heaps := depicts.heaps
  bare := depicts.bare
  slots := by
    rw [depicts.slots]
    unfold slotsOf
    rw [content]
  named := content ▸ depicts.named

/-- **A page that is no tree's gets other slots.** -/
theorem change (depicts : Depicts pool stores ideal) (holds : pool.content pageId = some page)
    (content : pool'.content = Function.update pool.content pageId (some page'))
    (id : page'.id = page.id) {change : Change Row}
    (slots : page'.slots = apply page.slots change) :
    Depicts pool' stores (ideal.change pageId change) where
  trees := depicts.trees
  heaps := depicts.heaps
  bare := depicts.bare
  slots := by
    unfold IdealStores.change
    rw [slotsOf_update content, slots, ← slotsOf_of_content holds, depicts.slots]
  named := by
    intro heap member other holds'
    rw [content] at holds'
    by_cases same : heap.firstPageId = pageId
    · rw [same, Function.update_self] at holds'
      rw [← Option.some.inj holds', id]
      exact depicts.named heap member page (same ▸ holds)
    · rw [Function.update_of_ne same] at holds'
      exact depicts.named heap member other holds'

theorem slotsOf_of_blank (blank : ∀ page, pool.content pageId = some page → page.recordCount = 0) :
    pool.slotsOf pageId = [] := by
  unfold slotsOf
  cases holds : pool.content pageId with
  | none => rfl
  | some page => exact Page.slots_of_empty (blank page holds)

/-- **The slots of all pages are as before** where a page is as before, or had no slots and has
none. -/
theorem slotsOf_of_counts (has : Counts (fun id => (pool.content id).elim 0 Page.recordCount) pool')
    (ok : pool.Consistent)
    (kept : ∀ id < pool.disk.pageCount, pool'.content id = pool.content id ∨
      ∀ page, pool.content id = some page → page.recordCount = 0) : pool'.slotsOf =
        pool.slotsOf := by
  funext id
  by_cases same : pool'.content id = pool.content id
  · unfold slotsOf
    rw [same]
  · have blank : ∀ page, pool.content id = some page → page.recordCount = 0 := by
      intro page holds
      exact (kept id (lt_pageCount ok holds)).resolve_left same page holds
    rw [slotsOf_of_blank blank]
    exact slotsOf_of_blank fun page holds => Counts.recordCount_eq_zero has blank holds

/-- A tree comes in for one of the trees or none. -/
theorem withTree (depicts : Depicts pool stores ideal) {rest : Set BTree} {x : Index Str Str}
    {pairs : List (Str × Str)} (sub : rest ⊆ stores.trees) (isNew : tree ∉ rest)
    (slots : pool'.slotsOf = pool.slotsOf)
    (same : ∀ heap ∈ stores.heaps, pool'.content heap.firstPageId = pool.content heap.firstPageId)
    (bare : x.bare = (BTree.indexOf 0 pairs).bare) :
    Depicts pool' (stores.withTree rest tree x) (ideal.withTree rest tree pairs) where
  trees := rfl
  heaps := depicts.heaps
  bare := by
    rintro other (rfl | member)
    · rw [Stores.index_withTree_self, IdealStores.index_withTree_self]
      exact bare
    · have apart : other ≠ tree := fun isTree => isNew (isTree ▸ member)
      rw [Stores.index_withTree_of_ne apart, IdealStores.index_withTree_of_ne apart]
      exact depicts.bare other (sub member)
  slots := depicts.slots.trans slots.symm
  named := fun heap member page holds => depicts.named heap member page (same heap member ▸ holds)

end Depicts

/-! ### The calls -/

namespace StoreCall

/-- **How a call of ideal stores ends**: it answers as they do, or fails with nothing changed. -/
def EndsIdeal {α : Type} (pool : BufferPool) (stores : Stores) (ideal : IdealStores)
    (call : StoreCall α) :
    Prop :=
  Ends call.run pool
    (fun value pool' => ∃ ideal', ideal.Answers call value ideal' ∧
      Depicts pool' (call.after pool stores value) ideal')
    (fun fault pool' => (∃ id, fault = DiskManager.noSuchPage id) ∧ pool'.content = pool.content ∨
      DiskFull pool.disk.maxPages fault pool')

variable {pool pool' : BufferPool} {stores : Stores} {ideal : IdealStores} {tree tree' : BTree}
  {heap : TableHeap} {pageId : Nat} {page page' : Page} {rid : RowId} {order : RowOrder}
  {padding : Byte} {row : Row}

/-- A tree on pages that none of the others has is none of them. -/
theorem notMem_of_own (shared : Shared pool stores) {rest : Set BTree} (sub : rest ⊆ stores.trees)
    {x : Index Str Str} (root : tree.rootId = x.root.id)
    (own : ∀ id ∈ x.root.pages, ∀ other ∈ rest, id ∉ stores.pages other) : tree ∉ rest := by
  intro member
  refine own tree.rootId ?_ tree member ?_
  · rw [root]
    exact x.root.id_mem_pages
  · rw [(shared.sound tree (sub member)).holds.root]
    exact (stores.index tree).root.id_mem_pages

theorem row_eq (depicts : Depicts pool stores ideal) (holds : pool.content rid.pageId = some page) :
    ideal.row rid = page.rowAt rid.slotIndex := by
  unfold IdealStores.row
  rw [depicts.slots, slotsOf_of_content holds, Page.read_slots]

/-- A page that is not there. -/
theorem ends_of_missing {α : Type} (shared : Shared pool stores)
    {next : Page → EStateM Fault BufferPool α} {returns : α → BufferPool → Prop}
    (nothing : pool.content pageId = none) :
    Ends (fetchPage pageId >>= next) pool returns
      (fun fault pool' => (∃ id, fault = DiskManager.noSuchPage id) ∧ pool'.content = pool.content ∨
        DiskFull pool.disk.maxPages fault pool') := by
  refine Ends.bind
    ((fetchPage_fetches shared.ready.consistent pageId).mono (fun _ _ done => done) ?_) ?_
  · rintro fault pool' (missed | ⟨isMissing, -, moves⟩)
    · exact (shared.ready.not_missed missed).elim
    · exact .inl ⟨⟨pageId, isMissing⟩, moves.content⟩
  · rintro page pinned ⟨there, -⟩
    exact nomatch nothing.symm.trans there

section Calls

variable (shared : Shared pool stores) (depicts : Depicts pool stores ideal)

include shared depicts

theorem endsIdeal_createTree : EndsIdeal pool stores ideal .createTree := by
  have ok := shared.ready.consistent
  refine ((BTree.create_ends shared.ready).and ((BTree.nodeWise_counts _).create pool
    (Counts.exists_counts ok))).mono ?_ fun _ _ fails => .inr fails.1.1
  rintro tree pool' ⟨⟨moves, holds, same⟩, has⟩
  have isNew : tree ∉ stores.trees := by
    refine notMem_of_own shared subset_rfl holds.root fun id onTree other member onOther => ?_
    rw [List.mem_singleton.mp onTree] at onOther
    exact Nat.lt_irrefl _ (shared.lt_pageCount member onOther)
  have slots := Depicts.slotsOf_of_counts has ok fun id old => .inl (same id old)
  refine ⟨_, .createTree (depicts.trees ▸ isNew), ?_⟩
  rw [depicts.trees]
  exact depicts.withTree subset_rfl isNew slots
    (fun heap member => same _ (shared.heaps heap member).1) rfl

theorem endsIdeal_insert (member : tree ∈ stores.trees) {key value : Str}
    (insertable : BTree.Insertable (stores.indexOn pool tree) (key, value)) :
    EndsIdeal pool stores ideal (.insert tree key value) := by
  have ok := shared.ready.consistent
  have sound := shared.sound tree member
  have ends :=
    BTree.insert_ends shared.ready sound.ok sound.holds (key, value) (sound.writable insertable)
  refine (ends.and ((BTree.nodeWise_counts _).insert tree key value pool
    (Counts.exists_counts ok))).mono ?_ fun _ _ fails => .inr fails.1.1
  rintro tree' pool' ⟨⟨moves, holds, same⟩, has⟩
  have isNew : tree' ∉ stores.trees \ {tree} := by
    refine notMem_of_own shared Set.sdiff_subset holds.root fun id onTree other among onOther => ?_
    rcases Index.mem_pages_insert onTree with old | new
    · exact shared.apart other among.1 tree member among.2 id onOther old
    · exact absurd (shared.lt_pageCount among.1 onOther) (Nat.not_lt.mpr new)
  have slots := Depicts.slotsOf_of_counts has ok fun id old => by
    by_cases onTree : id ∈ stores.pages tree
    · exact .inr (shared.blank tree member id onTree)
    · exact .inl (same id old onTree)
  have bare : ((stores.indexOn pool tree).insert btreeOrder (key, value)).bare =
      (BTree.indexOf 0 (ideal.pairs tree ++ [(key, value)])).bare := by
    unfold BTree.indexOf Index.insertAll
    rw [List.foldl_append]
    show _ = ((BTree.indexOf 0 (ideal.pairs tree)).insert btreeOrder (key, value)).bare
    exact Index.bare_insert (depicts.bare_indexOn member) (key, value)
  refine ⟨_, .insert (depicts.trees ▸ member) (depicts.trees ▸ isNew), ?_⟩
  rw [depicts.trees]
  refine depicts.withTree Set.sdiff_subset isNew slots (fun heap among => ?_) bare
  obtain ⟨there, apart⟩ := shared.heaps heap among
  exact same _ there (apart tree member)

theorem endsIdeal_search (member : tree ∈ stores.trees) (key : Str) :
    EndsIdeal pool stores ideal (.search tree key) := by
  have sound := shared.sound tree member
  refine (BTree.search_ends shared.ready sound.ok sound.holds key).mono ?_ fun _ _ never =>
    never.elim
  rintro found pool' ⟨same, moves⟩
  have finds : found = lookup key (ideal.index tree).root := by
    rw [same, ← Index.lookup_of_bare (depicts.bare_indexOn member) key]
    unfold lookup
    congr!
  rw [finds]
  exact ⟨ideal, .search, depicts.of_content moves.content⟩

theorem endsIdeal_rangeScan (member : tree ∈ stores.trees) (fromKey toKey : Str) :
    EndsIdeal pool stores ideal (.rangeScan tree fromKey toKey) := by
  have sound := shared.sound tree member
  obtain ⟨before, after, split, -, ends⟩ :=
    BTree.rangeScan_ends shared.ready sound.ok sound.holds fromKey toKey
  refine ends.mono ?_ fun _ _ never => never.elim
  rintro found pool' ⟨same, moves⟩
  have finds : found = range fromKey toKey (ideal.index tree).root := by
    rw [same, ← onward_eq_of_split sound.ok.nodup split,
      ← Index.range_of_bare (depicts.bare_indexOn member) fromKey toKey]
    rfl
  rw [finds]
  exact ⟨ideal, .rangeScan, depicts.of_content moves.content⟩

theorem endsIdeal_createHeap : EndsIdeal pool stores ideal .createHeap := by
  have ok := shared.ready.consistent
  refine (TableHeap.create_ends ok).mono ?_ ?_
  · rintro heap pool' ⟨isNext, moves⟩
    have isNew : heap ∉ stores.heaps := fun member => (shared.heaps heap member).1.ne isNext
    have blank : pool.slotsOf heap.firstPageId = [] := by
      refine Depicts.slotsOf_of_blank fun page holds => ?_
      rw [isNext, ok.content_pageCount] at holds
      exact nomatch holds
    have page : pool'.slotsOf = pool.slotsOf := by
      rw [Depicts.slotsOf_update moves.content, Page.slots_of_empty (Page.recordCount_new _),
        ← blank]
      exact Function.update_eq_self ..
    refine ⟨_, .createHeap (depicts.heaps ▸ isNew) (depicts.slots ▸ blank), ?_⟩
    refine ⟨depicts.trees, congrArg (Insert.insert heap) depicts.heaps, depicts.bare,
      depicts.slots.trans page.symm, ?_⟩
    have small := pageCount_small moves.consistent
    have count := moves.pageCount_update ok isNext.le
    rintro other (rfl | member) page holds
    · rw [moves.content, Function.update_self] at holds
      rw [← Option.some.inj holds]
      exact Page.id_new (by omega)
    · have apart : other.firstPageId ≠ heap.firstPageId := isNext ▸ (shared.heaps other member).1.ne
      rw [moves.content, Function.update_of_ne apart] at holds
      exact depicts.named other member page holds
  · rintro fault pool' (refused | full)
    · exact (shared.ready.not_refused refused).elim
    · exact .inr full

theorem endsIdeal_getRow (rid : RowId) : EndsIdeal pool stores ideal (.getRow rid) := by
  cases there : pool.content rid.pageId with
  | none => exact ends_of_missing shared there
  | some page =>
    have ends := TableHeap.getRow_ends shared.ready.consistent there (shared.slotted _ page there)
    refine ends.mono ?_ fun _ _ missed => (shared.ready.not_missed missed).elim
    rintro found pool' ⟨rfl, moves⟩
    rw [← row_eq depicts there]
    exact ⟨ideal, .getRow, depicts.of_content moves.content⟩

/-- **A deletion** is the ideal one. -/
theorem deletes_ideal {done : Bool} (there : pool.content rid.pageId = some page)
    (deletes : TableHeap.Deletes page rid.slotIndex done page')
    (content : pool'.content = Function.update pool.content rid.pageId (some page')) :
    done = (ideal.row rid).isSome ∧
      Depicts pool' stores (ideal.change rid.pageId (.remove rid.slotIndex)) := by
  have well := shared.slotted _ page there
  have kept := deletes.kept well
  rw [row_eq depicts there]
  rcases deletes with ⟨rfl, live, rfl⟩ | ⟨rfl, dead, rfl⟩
  · refine ⟨(Page.isSome_rowAt.mpr live).symm, depicts.change there content kept.2 ?_⟩
    exact (well.freed_withoutSlot live.1).slots_eq
  · refine ⟨(Bool.eq_false_iff.mpr fun isSome => dead (Page.isSome_rowAt.mp isSome)).symm,
      depicts.change there content rfl ?_⟩
    refine (apply_remove_of_empty ?_).symm
    rw [Page.read_slots]
    exact Option.not_isSome_iff_eq_none.mp fun isSome => dead (Page.isSome_rowAt.mp isSome)

theorem endsIdeal_deleteRow (rid : RowId) : EndsIdeal pool stores ideal (.deleteRow rid) := by
  cases there : pool.content rid.pageId with
  | none => exact ends_of_missing shared there
  | some page =>
    have ends :=
      TableHeap.deleteRow_ends shared.ready.consistent there (shared.slotted _ page there)
    refine ends.mono ?_ fun _ _ missed => (shared.ready.not_missed missed).elim
    rintro done pool' ⟨page', deletes, moves⟩
    obtain ⟨rfl, depicts'⟩ := deletes_ideal shared depicts there deletes moves.content
    exact ⟨_, .deleteRow, depicts'⟩

/-- **An insertion** is the ideal one. -/
theorem inserts_ideal (member : heap ∈ stores.heaps)
    (fits : ∀ page, pool.content heap.firstPageId = some page →
      (TableHeap.storedText order row).length ≤ page.dataStart) :
    Ends (heap.insertRow order padding row) pool
      (fun rid pool' => ∃ ideal', ideal.Inserts heap (IdealStores.stored order row) rid ideal' ∧
        Depicts pool' stores ideal')
      (fun _ _ => False) := by
  obtain ⟨page, there⟩ := shared.heapPage member
  have well := shared.slotted _ page there
  have ends :=
    @TableHeap.insertRow_ends pool page order padding row heap shared.ready.consistent there well
    (fits page there)
  refine ends.mono ?_ fun _ _ => shared.ready.not_missed
  rintro rid pool' ⟨page', inserts, moves⟩
  have kept := inserts.kept well
  rcases inserts with ⟨rfl, -, grown⟩ | ⟨rfl, -, rfl⟩
  · refine ⟨_, ?_, depicts.change there moves.content kept.2 grown.slots_eq⟩
    have length : (ideal.slots heap.firstPageId).length = page.recordCount := by
      rw [depicts.slots, slotsOf_of_content there, Page.length_slots]
    rw [depicts.named heap member page there, ← length]
    exact .inserted
  · refine ⟨ideal, .full, depicts.of_content ?_⟩
    rw [moves.content, ← there, Function.update_eq_self]

theorem endsIdeal_insertRow (member : heap ∈ stores.heaps)
    (fits : ∀ page, pool.content heap.firstPageId = some page →
      (TableHeap.storedText order row).length ≤ page.dataStart) :
    EndsIdeal pool stores ideal (.insertRow heap order padding row) := by
  refine (inserts_ideal shared depicts member fits).mono ?_ fun _ _ never => never.elim
  rintro rid pool' ⟨ideal', inserts, depicts'⟩
  exact ⟨ideal', .insertRow inserts, depicts'⟩

theorem endsIdeal_updateRow (member : heap ∈ stores.heaps)
    (fits : ∀ page, pool.content heap.firstPageId = some page →
      (TableHeap.storedText order row).length ≤
      (if rid.pageId = heap.firstPageId then page.withoutSlot rid.slotIndex else page).dataStart) :
    EndsIdeal pool stores ideal (.updateRow heap order padding rid row) := by
  show Ends (heap.updateRow order padding rid row) pool _ _
  unfold TableHeap.updateRow
  cases there : pool.content rid.pageId with
  | none =>
    unfold TableHeap.deleteRow
    rw [bind_assoc]
    exact ends_of_missing shared there
  | some page =>
    have ends :=
      TableHeap.deleteRow_ends shared.ready.consistent there (shared.slotted _ page there)
    refine Ends.bind (ends.mono (fun _ _ done => done) fun _ _ missed =>
      (shared.ready.not_missed missed).elim) ?_
    rintro done freed ⟨page', deletes, moves⟩
    have shared' := shared.of_deletes there deletes moves
    obtain ⟨isDone, depicts'⟩ := deletes_ideal shared depicts there deletes moves.content
    rcases deletes with ⟨rfl, live, rfl⟩ | ⟨rfl, -, rfl⟩
    · have fits' : ∀ page'', freed.content heap.firstPageId = some page'' →
          (TableHeap.storedText order row).length ≤ page''.dataStart := by
        intro page'' holds
        rw [moves.content] at holds
        by_cases onPage : rid.pageId = heap.firstPageId
        · rw [← onPage, Function.update_self] at holds
          have fits := fits page (onPage ▸ there)
          rw [if_pos onPage] at fits
          exact Option.some.inj holds ▸ fits
        · rw [Function.update_of_ne (Ne.symm onPage)] at holds
          have fits := fits page'' holds
          rwa [if_neg onPage] at fits
      refine Ends.bind ((inserts_ideal shared' depicts' member fits').mono (fun _ _ done => done)
        fun _ _ never => never.elim) ?_
      rintro newRid pool' ⟨ideal', inserts, depicts''⟩
      exact ⟨ideal', .updateRow isDone.symm inserts, depicts''⟩
    · refine ⟨ideal, .updateMissing (Option.not_isSome_iff_eq_none.mp ?_), depicts.of_content ?_⟩
      · rw [← isDone]
        exact Bool.false_ne_true
      · rw [moves.content, ← there, Function.update_eq_self]

theorem endsIdeal_scan (heap : TableHeap) (snapshot : Option MvccSnapshot) :
    EndsIdeal pool stores ideal (.scan heap snapshot) := by
  have lists :=
    @TableHeap.scanPages_lists snapshot (invalidPageId - heap.firstPageId) heap.firstPageId pool []
    shared.ready.consistent shared.slotted
  have safe :=
    @TableHeap.scanPages_slotted snapshot (invalidPageId - heap.firstPageId)
      heap.firstPageId pool []
    shared.ready shared.slotted
  refine (lists.and safe).mono ?_ fun _ _ fails => .inl ⟨fails.2.1, fails.2.2.content⟩
  rintro found pool' ⟨same, moves⟩
  rw [same, List.nil_append, ← depicts.slots]
  exact ⟨ideal, .scan, depicts.of_content moves.content⟩

/-- **Step lemma**: every call that fits answers as on stores of its own. -/
theorem endsIdeal_of_fits {α : Type} (call : StoreCall α) (fits : call.Fits pool stores) :
    EndsIdeal pool stores ideal call := by
  cases call with
  | createTree => exact endsIdeal_createTree shared depicts
  | insert tree key value => exact endsIdeal_insert shared depicts fits.1 fits.2
  | search tree key => exact endsIdeal_search shared depicts fits key
  | rangeScan tree fromKey toKey => exact endsIdeal_rangeScan shared depicts fits fromKey toKey
  | createHeap => exact endsIdeal_createHeap shared depicts
  | insertRow heap order padding row => exact endsIdeal_insertRow shared depicts fits.1 fits.2
  | getRow rid => exact endsIdeal_getRow shared depicts rid
  | updateRow heap order padding rid row => exact endsIdeal_updateRow shared depicts fits.1 fits.2
  | deleteRow rid => exact endsIdeal_deleteRow shared depicts rid
  | scan heap snapshot => exact endsIdeal_scan shared depicts heap snapshot

end Calls

end StoreCall

/-! ### Starting again -/

namespace BufferPool

/-- A new pool on the file. -/
def reopened (poolSize : Nat) (pool : BufferPool) : BufferPool where
  poolSize
  disk := DiskManager.openFile pool.disk.file.bytes pool.disk.maxPages pool.disk.maxPages_lt

variable {pool flushed : BufferPool} {order : PageOrder} {poolSize : Nat}

theorem content_reopened (poolSize : Nat) (pool : BufferPool) :
    (pool.reopened poolSize).content = pool.disk.page? := DiskManager.page?_congr rfl

theorem consistent_reopened (ok : pool.Consistent) : (pool.reopened poolSize).Consistent := by
  refine consistent_new (DiskManager.usable_openFile _ ?_)
  rw [← ok.usable.pageCount]
  exact ok.usable.fits

/-- **All pages are in the file** once they are flushed. -/
theorem content_flushed (ok : pool.Consistent) (unpinned : Unpinned pool)
    (ran : flushAll order pool = .ok ⟨⟩ flushed) :
    (flushed.reopened poolSize).Consistent ∧ (flushed.reopened poolSize).content =
      pool.content := by
  obtain ⟨becomes, stored⟩ := (flushAll_ends ok order).of_ok ran
  refine ⟨consistent_reopened becomes.consistent, ?_⟩
  funext pageId
  rw [content_reopened, stored pageId (ok.settled_of_unpinned (unpinned pageId))]
  exact congrFun becomes.content pageId

end BufferPool

/-- **The stores of a file** are there again. -/
theorem Shared.reopen {pool pool' : BufferPool} {stores : Stores} (shared : Shared pool stores)
    (ready : pool'.Ready) (content : pool'.content = pool.content) : Shared pool' stores where
  ready := ready
  slotted := content ▸ shared.slotted
  sound := fun tree member => (shared.sound tree member).others ready.consistent fun _ _ => by
    rw [content]
  blank := content ▸ shared.blank
  apart := shared.apart
  heaps := by
    rw [shared.ready.consistent.pageCount_eq ready.consistent content]
    exact shared.heaps

/-! ### Runs -/

/-- **A run on a file**, of trees that are made and heaps that are made or in the file. What clients
were told is recorded. -/
inductive StoreRun (start : BufferPool) : List IdealStores.Told → BufferPool → Stores → Prop
  | start :
      StoreRun start [] start
        ⟨∅, fun _ => Index.empty 0, {heap | heap.firstPageId < start.disk.pageCount}⟩
  | answered {α : Type} {told : List IdealStores.Told} {call : StoreCall α} {value : α}
      {pool pool' : BufferPool} {stores : Stores} :
      StoreRun start told pool stores → call.Fits pool stores → call.run pool = .ok value pool' →
      StoreRun start (told ++ [.answered call value]) pool' (call.after pool stores value)
  /-- A call may be made on a page that is not there. -/
  | threw {α : Type} {told : List IdealStores.Told} {call : StoreCall α} {id : Nat}
    {pool pool' : BufferPool}
      {stores : Stores} :
      StoreRun start told pool stores → call.Fits pool stores →
      call.run pool = .error (DiskManager.noSuchPage id) pool' → StoreRun start told pool' stores
  /-- All pages are flushed, and the process starts again. -/
  | reopened {told : List IdealStores.Told} {order : PageOrder} {poolSize : Nat}
    {pool flushed : BufferPool}
      {stores : Stores} :
      StoreRun start told pool stores → pool.flushAll order = .ok ⟨⟩ flushed → 0 < poolSize →
      StoreRun start told (flushed.reopened poolSize) stores

/-- The stores that are in the file. -/
def IdealStores.ofFile (start : BufferPool) : IdealStores where
  trees := ∅
  pairs := fun _ => []
  heaps := {heap | heap.firstPageId < start.disk.pageCount}
  slots := start.slotsOf

/-- **A file that can be used**: the slots and rows of every page lie inside it, and it has its own
number. -/
structure UsableFile (start : BufferPool) : Prop where
  consistent : start.Consistent
  frames : 0 < start.poolSize
  unpinned : Unpinned start
  slotted : ∀ id page, start.content id = some page → page.WellSlotted
  named : ∀ id page, start.content id = some page → page.id = id

section Runs

variable {start pool : BufferPool} {told : List IdealStores.Told} {stores : Stores}

theorem UsableFile.depicts (usable : UsableFile start) :
    Shared start ⟨∅, fun _ => Index.empty 0, {heap | heap.firstPageId < start.disk.pageCount}⟩ ∧
      Depicts start ⟨∅, fun _ => Index.empty 0, {heap | heap.firstPageId < start.disk.pageCount}⟩
        (IdealStores.ofFile start) := by
  have ready := ready_of_unpinned usable.consistent usable.frames usable.unpinned
  have apart : ∀ tree : BTree, tree ∉ (∅ : Set BTree) := fun _ => Set.notMem_empty _
  constructor
  · refine ⟨ready, usable.slotted, ?_, ?_, ?_, fun heap there => ⟨there, ?_⟩⟩
    · exact fun tree member => absurd member (apart tree)
    · exact fun tree member => absurd member (apart tree)
    · exact fun tree member => absurd member (apart tree)
    · exact fun tree member => absurd member (apart tree)
  · exact ⟨rfl, rfl, fun tree member => absurd member (apart tree), rfl,
      fun heap _ page holds => usable.named heap.firstPageId page holds⟩

/-- **Run lemma.** -/
theorem StoreRun.depicts (run : StoreRun start told pool stores) (usable : UsableFile start) :
    ∃ ideal, IdealStores.Run (IdealStores.ofFile start) told ideal ∧ pool.Neutral ∧
      Shared pool stores ∧
      Depicts pool stores ideal := by
  induction run with
  | start =>
    obtain ⟨shared, depicts⟩ := usable.depicts
    exact ⟨_, .nil, ⟨usable.consistent.indexed, usable.frames, usable.unpinned⟩, shared, depicts⟩
  | @answered α told call value pool pool' stores _ fits ran ih =>
    obtain ⟨ideal, run, neutral, shared, depicts⟩ := ih
    obtain ⟨ideal', answers, depicts'⟩ := (call.endsIdeal_of_fits shared depicts fits).of_ok ran
    exact ⟨ideal', run.concat answers, (call.keeps_run pool neutral).of_ok ran,
      (call.ends_run shared fits).of_ok ran, depicts'⟩
  | @threw α told call id pool pool' stores _ fits ran ih =>
    obtain ⟨ideal, run, neutral, shared, depicts⟩ := ih
    have neutral' := ((call.keeps_run pool neutral).of_error ran).2.resolve_left nofun
    rcases (call.ends_run shared fits).of_error ran with ⟨-, shared'⟩ | ⟨isFull, -⟩
    · rcases (call.endsIdeal_of_fits shared depicts fits).of_error ran with ⟨-, same⟩ | ⟨isFull, -⟩
      · exact ⟨ideal, run, neutral', shared', depicts.of_content same⟩
      · exact absurd isFull (noSuchPage_ne_failedToWrite _ _)
    · exact absurd isFull (noSuchPage_ne_failedToWrite _ _)
  | @reopened told order poolSize pool flushed stores _ ran frames ih =>
    obtain ⟨ideal, run, neutral, shared, depicts⟩ := ih
    obtain ⟨ok, content⟩ :=
      @content_flushed _ _ _ poolSize shared.ready.consistent neutral.unpinned ran
    have ready := ready_of_unpinned ok frames fun _ => rfl
    exact ⟨ideal, run, ⟨ok.indexed, frames, fun _ => rfl⟩, shared.reopen ready content,
      depicts.of_content content⟩

/-- **Trees and heaps in one file are what they would be on their own.** What clients were told in
any run, with the file closed and opened again in between, trees and heaps that share nothing could
have told them, in unbounded memory and without ever stopping; a tree whose keys are distinct is
then a sorted map. And every further call that fits answers as these do, or fails for want of a
page, with nothing changed, or because the disk is full. -/
theorem storeRun_refines (usable : UsableFile start) (run : StoreRun start told pool stores) :
    ∃ ideal, IdealStores.Run (IdealStores.ofFile start) told ideal ∧
      (∀ tree, ((ideal.pairs tree).map Prod.fst).Nodup → ∀ key value,
        lookup key (ideal.index tree).root = some value ↔ (key, value) ∈ ideal.pairs tree) ∧
      (∀ tree, ((ideal.pairs tree).map Prod.fst).Nodup → ∀ fromKey toKey,
        Sorted (range fromKey toKey (ideal.index tree).root) ∧
          (range fromKey toKey (ideal.index tree).root).Perm
            ((ideal.pairs tree).filter fun e => fromKey ≤ e.1 ∧ e.1 ≤ toKey)) ∧
      ∀ (α : Type) (call : StoreCall α), call.Fits pool stores →
        Ends call.run pool (fun value _ => ∃ ideal', ideal.Answers call value ideal')
          (fun fault pool' => (∃ id, fault = DiskManager.noSuchPage id) ∧
            pool'.content = pool.content ∨
            DiskFull pool.disk.maxPages fault pool') := by
  obtain ⟨ideal, ran, -, shared, depicts⟩ := run.depicts usable
  refine ⟨ideal, ran, fun tree distinct => IdealStores.search_of_distinct distinct,
    fun tree distinct => IdealStores.rangeScan_of_distinct distinct, fun α call fits => ?_⟩
  refine (call.endsIdeal_of_fits shared depicts fits).mono ?_ fun _ _ fails => fails
  rintro value pool' ⟨ideal', answers, -⟩
  exact ⟨ideal', answers⟩

end Runs

/-- A tree is made and gets a pair, the process starts again, and the key is searched. -/
theorem storeRun_refines_reopened :
    ∃ tree tree' found ideal, IdealStores.Run (IdealStores.ofFile onePagePool)
      [.answered .createTree tree, .answered (.insert tree (str "a") (str "1")) tree',
        .answered (.search tree' (str "a")) found] ideal := by
  have ready := ready_onePagePool
  have none : onePagePool.disk.pageCount = 0 := rfl
  have usable : UsableFile onePagePool :=
    ⟨ready.consistent, by decide, fun _ => rfl,
      fun id page holds => absurd (none ▸ lt_pageCount ready.consistent holds) (Nat.not_lt_zero id),
      fun id page holds => absurd (none ▸ lt_pageCount ready.consistent holds) (Nat.not_lt_zero id)⟩
  have made : (returned (BTree.create onePagePool)).isSome := by decide +kernel
  have put : (returned ((do
      let tree ← BTree.create
      tree.insert (str "a") (str "1")) onePagePool)).isSome := by
    decide +kernel
  have short : BTree.Short [(str "a", str "1")] := by
    unfold BTree.Short
    decide +kernel
  have tokens : Token (str "a") ∧ Token (str "1") := by decide +kernel
  -- on a variable, since the elaborator would run the calls
  generalize onePagePool = start at ready none usable made put ⊢
  obtain ⟨tree, pool, created⟩ : ∃ tree pool, BTree.create start = .ok tree pool := by
    cases ran : BTree.create start with
    | ok tree pool => exact ⟨tree, pool, rfl⟩
    | error fault pool =>
      rw [ran] at made
      exact nomatch made
  obtain ⟨tree', pool', inserted⟩ : ∃ tree' pool', tree.insert (str "a") (str "1") pool =
      .ok tree' pool' := by
    cases ran : tree.insert (str "a") (str "1") pool with
    | ok tree' pool' => exact ⟨tree', pool', rfl⟩
    | error fault pool' =>
      have failed : (BTree.create >>= fun tree => tree.insert (str "a") (str "1")) start =
          .error fault pool' := by
        simp only [bind, EStateM.bind, created, ran]
      rw [failed] at put
      exact nomatch put
  have run : StoreRun start [.answered .createTree tree] pool
      ((StoreCall.createTree).after start _ tree) := .answered .start trivial created
  have fits : (StoreCall.insert tree (str "a") (str "1")).Fits pool
    ((StoreCall.createTree).after start
      ⟨∅, fun _ => Index.empty 0, {heap | heap.firstPageId < start.disk.pageCount}⟩ tree) := by
    refine ⟨.inl rfl, tokens.1, tokens.2, ?_⟩
    unfold Stores.indexOn StoreCall.after
    rw [Stores.index_withTree_self]
    exact BTree.nodesFit_of_short start.disk.pageCount short _ List.prefix_rfl
  have run := StoreRun.answered run fits inserted
  obtain ⟨-, -, -, shared, -⟩ := run.depicts usable
  obtain ⟨_, flushed, flushes, -⟩ := (flushAll_ends shared.ready.consistent default).exists_ok
  have run := @StoreRun.reopened _ _ _ 1 _ _ _ run flushes Nat.one_pos
  obtain ⟨-, -, -, shared, -⟩ := run.depicts usable
  have sound := shared.sound tree' (.inl rfl)
  obtain ⟨found, pool'', searched, -⟩ :=
    (BTree.search_ends shared.ready sound.ok sound.holds (str "a")).exists_ok
  have run := @StoreRun.answered _ _ _ (.search tree' (str "a")) _ _ _ _ run (.inl rfl) searched
  obtain ⟨ideal, told, -⟩ := storeRun_refines usable run
  exact ⟨tree, tree', found, ideal, told⟩

end MyDb
