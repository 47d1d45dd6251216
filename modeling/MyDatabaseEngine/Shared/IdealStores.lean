/-
**What trees and heaps are for.**

The stores of a database file, on their own and in unbounded memory: a tree is the list of the pairs
that were inserted into it, and answers as the tree that has these pairs and nothing else; a page of
a heap is a list of slots, each of which is given once. `Answers` is what a call on them may answer
and what it makes of them. All that is left open is which ids new trees and heaps get, and when a
page is full.

With distinct keys a tree is a sorted map (`search_of_distinct`, `rangeScan_of_distinct`).
-/

import MyDatabaseEngine.Index.BTreeInvariant
import MyDatabaseEngine.Lib.TreeAnswers
import MyDatabaseEngine.Shared.PinNeutral

namespace MyDb

open BPlusTree SlotArray

/-- **Trees and heaps on their own.** A page that is no page of a heap has no slots. -/
structure IdealStores where
  trees : Set BTree
  pairs : BTree → List (Str × Str)
  heaps : Set TableHeap
  slots : Nat → List (Option Row)

namespace IdealStores

/-- The tree of the pairs. -/
def index (ideal : IdealStores) (tree : BTree) : Index Str Str := BTree.indexOf 0 (ideal.pairs tree)

/-- The trees `rest`, and a tree with these pairs. -/
def withTree (ideal : IdealStores) (rest : Set BTree) (tree : BTree) (pairs : List (Str × Str)) :
    IdealStores :=
  { ideal with trees := Insert.insert tree rest, pairs := Function.update ideal.pairs tree pairs }

/-- A change of the slots of a page. -/
def change (ideal : IdealStores) (pageId : Nat) (change : Change Row) : IdealStores :=
  { ideal with slots := Function.update ideal.slots pageId (apply (ideal.slots pageId) change) }

/-- What is in a slot. -/
def row (ideal : IdealStores) (rid : RowId) : Option Row :=
  read (ideal.slots rid.pageId) rid.slotIndex

/-- The row that is stored of a row: a long text is cut off. -/
def stored (order : RowOrder) (row : Row) : Row :=
  TableHeap.deserializeRowData (TableHeap.storedText order row)

/-- The rows of a page with their ids. -/
def listing (pageId : Nat) (slots : List (Option Row)) : List (RowId × Row) :=
  (List.range slots.length).filterMap fun i =>
    (read slots i).map fun row => ({ pageId, slotIndex := i }, row)

/-- A scan takes every row to be by transaction 1. -/
def shown (snapshot : Option MvccSnapshot) : Bool :=
  snapshot.all fun snapshot => 1 ≤ snapshot.snapshotId

/-- **What `insertRow` does**: the row gets a new slot, or the page is full. -/
inductive Inserts (ideal : IdealStores) (heap : TableHeap) (row : Row) : RowId → IdealStores → Prop
  | inserted : Inserts ideal heap row
      { pageId := heap.firstPageId, slotIndex := (ideal.slots heap.firstPageId).length }
      (ideal.change heap.firstPageId (.add row))
  | full : Inserts ideal heap row {} ideal

/-- **What a call answers**, and what it makes of the stores. -/
inductive Answers (ideal : IdealStores) : {α : Type} → StoreCall α → α → IdealStores → Prop
  | createTree {tree : BTree} :
      tree ∉ ideal.trees → Answers ideal .createTree tree (ideal.withTree ideal.trees tree [])
  | insert {tree tree' : BTree} {key value : Str} :
      tree ∈ ideal.trees → tree' ∉ ideal.trees \ {tree} →
      Answers ideal (.insert tree key value) tree'
        (ideal.withTree (ideal.trees \ {tree}) tree' (ideal.pairs tree ++ [(key, value)]))
  | search {tree : BTree} {key : Str} :
      Answers ideal (.search tree key) (lookup key (ideal.index tree).root) ideal
  | rangeScan {tree : BTree} {fromKey toKey : Str} :
      Answers ideal (.rangeScan tree fromKey toKey)
        (range fromKey toKey (ideal.index tree).root) ideal
  | createHeap {heap : TableHeap} :
      heap ∉ ideal.heaps → ideal.slots heap.firstPageId = [] →
      Answers ideal .createHeap heap { ideal with heaps := Insert.insert heap ideal.heaps }
  | insertRow {heap : TableHeap} {order : RowOrder} {padding : Byte} {row : Row} {rid : RowId}
      {ideal' : IdealStores} :
      ideal.Inserts heap (stored order row) rid ideal' →
      Answers ideal (.insertRow heap order padding row) rid ideal'
  | getRow {rid : RowId} : Answers ideal (.getRow rid) (ideal.row rid) ideal
  | deleteRow {rid : RowId} :
      Answers ideal (.deleteRow rid) (ideal.row rid).isSome
        (ideal.change rid.pageId (.remove rid.slotIndex))
  | updateRow {heap : TableHeap} {order : RowOrder} {padding : Byte}
    {rid newRid : RowId} {row : Row}
      {ideal' : IdealStores} :
      (ideal.row rid).isSome →
      (ideal.change rid.pageId (.remove rid.slotIndex)).Inserts heap (stored order row)
        newRid ideal' →
      Answers ideal (.updateRow heap order padding rid row) true ideal'
  | updateMissing {heap : TableHeap} {order : RowOrder} {padding : Byte} {rid : RowId} {row : Row} :
      ideal.row rid = none → Answers ideal (.updateRow heap order padding rid row) false ideal
  /-- The scan does not end with the heap, but with the last page there can be. -/
  | scan {heap : TableHeap} {snapshot : Option MvccSnapshot} :
      Answers ideal (.scan heap snapshot)
        (if shown snapshot then
          (List.range' heap.firstPageId (invalidPageId - heap.firstPageId)).flatMap fun pageId =>
            listing pageId (ideal.slots pageId)
        else []) ideal

/-- **What clients were told**: calls with their answers. -/
inductive Told
  | answered {α : Type} (call : StoreCall α) (value : α)

/-- **A run** of the stores on their own. -/
inductive Run (ideal : IdealStores) : List Told → IdealStores → Prop
  | nil : Run ideal [] ideal
  | concat {α : Type} {told : List Told} {call : StoreCall α} {value : α}
    {ideal' ideal'' : IdealStores} :
      Run ideal told ideal' → Answers ideal' call value ideal'' →
      Run ideal (told ++ [.answered call value]) ideal''

section Tree

variable {ideal : IdealStores} {rest : Set BTree} {tree other : BTree} {pairs : List (Str × Str)}

theorem index_withTree_self :
    (ideal.withTree rest tree pairs).index tree = BTree.indexOf 0 pairs := by
  unfold index
  exact congrArg (BTree.indexOf 0) (Function.update_self ..)

theorem index_withTree_of_ne (apart : other ≠ tree) :
    (ideal.withTree rest tree pairs).index other = ideal.index other := by
  unfold index
  exact congrArg (BTree.indexOf 0) (Function.update_of_ne apart ..)

end Tree

/-! ### Trees with distinct keys -/

section Distinct

variable {ideal : IdealStores} {tree : BTree} (distinct : ((ideal.pairs tree).map Prod.fst).Nodup)

include distinct

/-- **A search finds the value that was inserted with the key.** -/
theorem search_of_distinct (key value : Str) :
    lookup key (ideal.index tree).root = some value ↔ (key, value) ∈ ideal.pairs tree := by
  obtain ⟨ok, perm, -⟩ := BTree.indexOf_spec 0 (ideal.pairs tree)
  rw [← perm.mem_iff]
  exact lookup_eq_some_iff (by decide) ok.shaped ok.sorted
    ((perm.map Prod.fst).nodup_iff.mpr distinct)

/-- **A scan finds the pairs of the range**, sorted. -/
theorem rangeScan_of_distinct (fromKey toKey : Str) :
    Sorted (range fromKey toKey (ideal.index tree).root) ∧
      (range fromKey toKey (ideal.index tree).root).Perm
        ((ideal.pairs tree).filter fun e => fromKey ≤ e.1 ∧ e.1 ≤ toKey) := by
  obtain ⟨ok, perm, -⟩ := BTree.indexOf_spec 0 (ideal.pairs tree)
  have found := @range_eq_filter _ _ _ _ _ _ _ fromKey toKey (by decide) ok.shaped ok.sorted
    ((perm.map Prod.fst).nodup_iff.mpr distinct) ok.nodup
  unfold index
  rw [found]
  exact ⟨ok.sorted.filter _, perm.filter _⟩

end Distinct

end IdealStores

end MyDb
