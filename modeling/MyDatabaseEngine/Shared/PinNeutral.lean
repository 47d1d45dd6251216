/-
**Trees and heaps on one pool: who pins a page, releases it.**

A call of a tree or a heap pins one page at a time and releases it before it asks for the next,
along every path and also when it throws. So a pool that nobody has pinned a page of is `Neutral`
again after every call, and one frame is enough for all of them.

The exception is an access that has no defined outcome: it comes with its page pinned, and nothing
is said of the pool behind it. Every other throw comes from a call of the pool, before the page is
pinned, and none says that the pool is full (`ThrowsReleased`). The trees' calls follow from their
three visits to nodes, the heaps' are taken apart one by one. `AfterCalls` are the pools that any
such calls lead to, thrown ones included.
-/

import MyDatabaseEngine.Heap.HeapVisits
import MyDatabaseEngine.Index.NodeWise
import MyDatabaseEngine.Storage.PoolLru

namespace MyDb

open Outcome

namespace BufferPool

/-! ### A pool without pins -/

/-- **Nobody has pinned a page**, and there is a frame. -/
structure Neutral (pool : BufferPool) : Prop where
  indexed : pool.Indexed
  frames : 0 < pool.poolSize
  unpinned : ∀ pageId, pool.pinned pageId = 0

/-- **One page is pinned**, once. -/
structure PinsOne (pageId : Nat) (pool : BufferPool) : Prop where
  indexed : pool.Indexed
  frames : 0 < pool.poolSize
  pinned : pool.pinned = Function.update (fun _ => 0) pageId 1

/-- **How a call may throw**: not because all frames are pinned, and with everything released.
Behind undefined behaviour nothing is said of the pool. -/
def ThrowsReleased (fault : Fault) (pool : BufferPool) : Prop :=
  fault ≠ poolFull ∧ (fault = .undefinedBehaviour ∨ pool.Neutral)

variable {pool pinned : BufferPool} {pageId : Nat} {α : Type}

theorem throws_undefined : ThrowsReleased .undefinedBehaviour pool := ⟨nofun, .inl rfl⟩

theorem Neutral.throws (neutral : pool.Neutral) {fault : Fault} (other : OtherFault fault) :
    ThrowsReleased fault pool :=
  ⟨fun isFull => poolFull_of_otherFault (isFull ▸ other), .inr neutral⟩

theorem Neutral.not_full (neutral : pool.Neutral) : ¬ pool.lru.Full :=
  LruCache.not_full_of_unpinned neutral.frames neutral.unpinned

/-- A pool with the pins and the capacity of a neutral one. -/
theorem Neutral.of_lru (neutral : pool.Neutral) {pool' : BufferPool} (indexed : pool'.Indexed)
    (pins : pool'.lru.pins = pool.lru.pins) (capacity : pool'.lru.capacity = pool.lru.capacity) :
    pool'.Neutral :=
  ⟨indexed, neutral.frames.trans_eq capacity.symm,
    fun pageId => (congrFun pins pageId).trans (neutral.unpinned pageId)⟩

/-- A request that is served pins its page. -/
theorem Neutral.pinsOne (neutral : pool.Neutral) {pool' : BufferPool} (indexed : pool'.Indexed)
    (served : pool.lru.fetch true pageId = (.served, pool'.lru)) : PinsOne pageId pool' where
  indexed := indexed
  frames := by
    have capacity := @LruCache.capacity_fetch _ _ pool.lru true pageId
    rw [served] at capacity
    exact neutral.frames.trans_eq capacity.symm
  pinned := by
    have none : pool.pinned = fun _ => 0 := funext neutral.unpinned
    rw [← none]
    exact LruCache.pins_of_served (neutral.unpinned pageId) served

/-- **`fetchPage`** pins its page. -/
theorem Neutral.fetchPage (neutral : pool.Neutral) (pageId : Nat) :
    Ends (fetchPage pageId) pool (fun _ => PinsOne pageId) ThrowsReleased := by
  refine (fetchPage_serves neutral.indexed pageId).mono ?_ ?_
  · rintro page pool' ⟨indexed, served⟩
    exact neutral.pinsOne indexed served
  · rintro fault pool' ⟨indexed, absent, ⟨-, full⟩ | ⟨other, -, missing | same⟩⟩
    · exact (neutral.not_full
        ((LruCache.fetch_full_iff false absent).mp (congrArg Prod.fst full))).elim
    · have capacity := @LruCache.capacity_fetch _ _ pool.lru false pageId
      rw [missing] at capacity
      exact (neutral.of_lru indexed (LruCache.pins_of_missing missing) capacity).throws other
    · exact (neutral.of_lru indexed (congrArg LruCache.pins same)
        (congrArg LruCache.capacity same)).throws other

/-- **`newPage`** pins its page. -/
theorem Neutral.newPage (neutral : pool.Neutral) :
    Ends newPage pool (fun page => PinsOne page.id) ThrowsReleased := by
  refine (newPage_serves neutral.indexed).mono ?_ ?_
  · rintro page pool' ⟨indexed, -, -, served⟩
    exact neutral.pinsOne indexed served
  · rintro fault pool' ⟨indexed, ⟨-, full, -⟩ | ⟨other, -, made | same⟩⟩
    · exact (neutral.not_full full).elim
    · obtain ⟨pins, capacity⟩ := LruCache.makeRoom_pins made
      exact (neutral.of_lru indexed pins capacity).throws other
    · exact (neutral.of_lru indexed (congrArg LruCache.pins same)
        (congrArg LruCache.capacity same)).throws other

/-- **The pinned page is released.** -/
theorem PinsOne.unpin (pins : PinsOne pageId pinned) (isDirty : Bool) :
    (unpin pageId isDirty pinned).Neutral := by
  obtain ⟨indexed, same⟩ := pins.indexed.unpin pageId isDirty
  have capacity := congrArg LruCache.capacity same
  have released : (BufferPool.unpin pageId isDirty pinned).pinned =
      Function.update pinned.pinned pageId (pinned.pinned pageId - 1) := congrArg LruCache.pins same
  refine ⟨indexed, pins.frames.trans_eq capacity.symm, fun other => ?_⟩
  rw [released, pins.pinned, Function.update_self, Function.update_idem]
  exact congrFun (Function.update_eq_self pageId fun _ => 0) other

theorem PinsOne.write (pins : PinsOne pageId pinned) (page : Page) :
    PinsOne pageId (write pageId page pinned) := by
  obtain ⟨indexed, same⟩ := pins.indexed.write pageId page
  have capacity := congrArg LruCache.capacity same
  exact ⟨indexed, pins.frames.trans_eq capacity.symm,
    (congrArg LruCache.pins same).trans pins.pinned⟩

/-- Work in memory on a pinned page. -/
theorem ends_inMemory_bind {result : Except Fault α} {β : Type}
    {next : α → EStateM Fault BufferPool β} {returns : β → BufferPool → Prop}
    (noWorse : NoWorse result) (goesOn : ∀ value, Ends (next value) pool returns ThrowsReleased) :
    Ends (inMemory result >>= next) pool returns ThrowsReleased := by
  have stays : Keeps (fun pool' => pool' = pool) ThrowsReleased (inMemory result) :=
    noWorse.inMemory fun _ _ => throws_undefined
  refine (stays pool rfl).bind ?_
  rintro value _ rfl
  exact goesOn value

/-- **A visit** to a page is a fetch, and then work that ends with its release. -/
theorem keeps_visit {next : Page → EStateM Fault BufferPool α}
    (visit : ∀ page pinned, PinsOne pageId pinned →
      Ends (next page) pinned (fun _ => Neutral) ThrowsReleased) :
    Keeps Neutral ThrowsReleased (BufferPool.fetchPage pageId >>= next) :=
  fun _ neutral => (neutral.fetchPage pageId).bind visit

end BufferPool

open BufferPool

/-! ### Trees -/

namespace BTree

/-- **The visits to single nodes** release what they pin. -/
theorem nodeWise_neutral : NodeWise Neutral ThrowsReleased where
  load := by
    refine fun id => keeps_visit fun page pinned pins => ?_
    refine ends_inMemory_bind (BTreeNode.noWorse_deserialize page) fun node => ?_
    exact pins.unpin false
  save := by
    refine fun id node => keeps_visit fun page pinned pins => ?_
    refine ends_inMemory_bind (BTreeNode.noWorse_serialize page) fun page' => ?_
    exact (pins.write page').unpin true
  alloc := fun _ neutral => neutral.newPage.bind fun _ _ pins => pins.unpin true
  undefined := fun _ _ => throws_undefined
  diverges := fun _ neutral => ⟨nofun, .inr neutral⟩

end BTree

/-! ### Heaps -/

namespace TableHeap

variable {page : Page}

theorem noWorse_dataStartFrom (count : Nat) : ∀ {i dataStart : Nat},
    NoWorse (page.dataStartFrom count i dataStart) := by
  induction count with
  | zero => exact NoWorse.ok _
  | succ count ih => exact Page.noWorse_slotEntry.bind fun _ => ih

theorem noWorse_insertIntoPage {order : RowOrder} {padding : Byte} {row : Row} :
    NoWorse (insertIntoPage order padding page row) := by
  unfold insertIntoPage
  refine (noWorse_dataStartFrom _).bind fun dataStart => ?_
  split
  · exact NoWorse.ok _
  · refine Page.noWorse_poke.bind fun _ => Page.noWorse_setSlotEntry.bind fun _ => ?_
    exact NoWorse.ok _

theorem noWorse_readSlot (i : Nat) : NoWorse (readSlot page i) := by
  unfold readSlot
  split
  · exact NoWorse.ok _
  · refine Page.noWorse_slotEntry.bind fun entry => ?_
    split
    · exact NoWorse.ok _
    · exact Page.noWorse_peek.bind fun _ => NoWorse.ok _

theorem noWorse_scanSlots {snapshot : Option MvccSnapshot} {pid : Nat} (count : Nat) :
    ∀ {i : Nat} {results : List (RowId × Row)},
      NoWorse (scanSlots snapshot pid page count i results) := by
  induction count with
  | zero => exact NoWorse.ok _
  | succ count ih =>
    intro i results
    rw [scanSlots]
    refine Page.noWorse_slotEntry.bind fun entry => ?_
    split
    · exact ih
    · exact Page.noWorse_peek.bind fun _ => ih

theorem keeps_create : Keeps Neutral ThrowsReleased create :=
  fun _ neutral => neutral.newPage.bind fun _ _ pins => pins.unpin true

theorem keeps_insertRow (heap : TableHeap) (order : RowOrder) (padding : Byte) (row : Row) :
    Keeps Neutral ThrowsReleased (heap.insertRow order padding row) := by
  refine keeps_visit fun page pinned pins => ?_
  refine ends_inMemory_bind noWorse_insertIntoPage fun inserted => ?_
  exact (pins.write inserted.2).unpin true

theorem keeps_getRow (rid : RowId) : Keeps Neutral ThrowsReleased (getRow rid) := by
  rw [getRow_eq]
  refine keeps_visit fun page pinned pins => ?_
  exact (noWorse_readSlot _).inMemory (fun _ _ => throws_undefined) _ (pins.unpin false)

theorem keeps_deleteRow (rid : RowId) : Keeps Neutral ThrowsReleased (deleteRow rid) := by
  refine keeps_visit fun page pinned pins => ?_
  dsimp only
  split
  · exact pins.unpin false
  · refine ends_inMemory_bind Page.noWorse_slotEntry fun entry => ?_
    split
    · exact pins.unpin false
    · refine ends_inMemory_bind Page.noWorse_setSlotEntry fun page' => ?_
      exact (pins.write page').unpin true

theorem keeps_updateRow (heap : TableHeap) (order : RowOrder) (padding : Byte) (rid : RowId)
    (row : Row) :
    Keeps Neutral ThrowsReleased (heap.updateRow order padding rid row) := by
  refine (keeps_deleteRow rid).bind fun done => ?_
  split
  · exact (keeps_insertRow heap order padding row).bind fun _ => keeps_pure _
  · exact keeps_pure _

theorem keeps_scanPages (snapshot : Option MvccSnapshot) (count : Nat) : ∀ {pid : Nat}
    {results : List (RowId × Row)},
      Keeps Neutral ThrowsReleased (scanPages snapshot count pid results) := by
  induction count with
  | zero => exact keeps_pure _
  | succ count ih =>
    intro pid results
    rw [scanPages]
    refine keeps_visit fun page pinned pins => ?_
    refine ends_inMemory_bind (noWorse_scanSlots _) fun found => ?_
    exact ih _ (pins.unpin false)

end TableHeap

/-! ### Calls one after the other -/

/-- **A call** of a tree or a heap on a shared pool. -/
inductive StoreCall : Type → Type
  | createTree : StoreCall BTree
  | insert (tree : BTree) (key value : Str) : StoreCall BTree
  | search (tree : BTree) (key : Str) : StoreCall (Option Str)
  | rangeScan (tree : BTree) (fromKey toKey : Str) : StoreCall (List (Str × Str))
  | createHeap : StoreCall TableHeap
  | insertRow (heap : TableHeap) (order : RowOrder) (padding : Byte) (row : Row) : StoreCall RowId
  | getRow (rid : RowId) : StoreCall (Option Row)
  | updateRow (heap : TableHeap) (order : RowOrder) (padding : Byte) (rid : RowId) (row : Row) :
      StoreCall Bool
  | deleteRow (rid : RowId) : StoreCall Bool
  | scan (heap : TableHeap) (snapshot : Option MvccSnapshot) : StoreCall (List (RowId × Row))

namespace StoreCall

variable {α : Type}

def run : StoreCall α → EStateM Fault BufferPool α
  | createTree => BTree.create
  | insert tree key value => tree.insert key value
  | search tree key => tree.search key
  | rangeScan tree fromKey toKey => tree.rangeScan fromKey toKey
  | createHeap => TableHeap.create
  | insertRow heap order padding row => heap.insertRow order padding row
  | getRow rid => TableHeap.getRow rid
  | updateRow heap order padding rid row => heap.updateRow order padding rid row
  | deleteRow rid => TableHeap.deleteRow rid
  | scan heap snapshot => heap.scan snapshot

/-- **Step lemma**: every call releases what it pins. -/
theorem keeps_run (call : StoreCall α) : Keeps Neutral ThrowsReleased call.run := by
  cases call with
  | createTree => exact BTree.nodeWise_neutral.create
  | insert tree key value => exact BTree.nodeWise_neutral.insert tree key value
  | search tree key => exact BTree.nodeWise_neutral.search tree key
  | rangeScan tree fromKey toKey => exact BTree.nodeWise_neutral.rangeScan tree fromKey toKey
  | createHeap => exact TableHeap.keeps_create
  | insertRow heap order padding row => exact TableHeap.keeps_insertRow heap order padding row
  | getRow rid => exact TableHeap.keeps_getRow rid
  | updateRow heap order padding rid row =>
    exact TableHeap.keeps_updateRow heap order padding rid row
  | deleteRow rid => exact TableHeap.keeps_deleteRow rid
  | scan heap snapshot => exact TableHeap.keeps_scanPages snapshot _

end StoreCall

/-- **A pool after calls**, each of which returned or threw. -/
inductive AfterCalls (start : BufferPool) : BufferPool → Prop
  | start : AfterCalls start start
  | returned {α : Type} {call : StoreCall α} {value : α} {pool pool' : BufferPool} :
      AfterCalls start pool → call.run pool = .ok value pool' → AfterCalls start pool'
  | threw {α : Type} {call : StoreCall α} {fault : Fault} {pool pool' : BufferPool} :
      AfterCalls start pool → call.run pool = .error fault pool' → fault ≠ .undefinedBehaviour →
      AfterCalls start pool'

/-- **Run lemma.** -/
theorem AfterCalls.neutral {start pool : BufferPool} (neutral : start.Neutral)
    (after : AfterCalls start pool) : pool.Neutral := by
  induction after with
  | start => exact neutral
  | @returned _ call _ pool _ _ ran ih => exact (call.keeps_run pool ih).of_ok ran
  | @threw _ call _ pool _ _ ran defined ih =>
    exact ((call.keeps_run pool ih).of_error ran).2.resolve_left defined

end MyDb
