/-
**The table heap** (`src/table_heap.cpp`).

A heap keeps its rows on one page, `firstPageId`; nothing links it to another. A `RowId` names a
page and a slot, and the calls that take one work on that page, whichever heap they are made on.

Each call fetches its page, works on its bytes in memory and releases it, dirty or not as the source
has it. A page that is fetched stays pinned when the work in memory has no defined outcome; nothing
is said of the pool from there on. `updateRow` clears the old slot first, releases the page, and
then inserts on the heap's own page. `scan` counts page ids up to `INVALID_PAGE_ID`, and skips none.
-/

import MyDatabaseEngine.Exec.Operator
import MyDatabaseEngine.Heap.SlottedPage
import MyDatabaseEngine.Storage.BufferPool

namespace MyDb

open BufferPool (fetchPage newPage unpin write)

structure TableHeap where
  firstPageId : Nat
  deriving DecidableEq

namespace TableHeap

/-- `create`. -/
def create : EStateM Fault BufferPool TableHeap := do
  let page ← newPage
  let id := page.id
  modify (unpin id true)
  return { firstPageId := id }

/-- `insertRow`. -/
def insertRow (order : RowOrder) (padding : Byte) (heap : TableHeap) (row : Row) :
    EStateM Fault BufferPool RowId := do
  let page ← fetchPage heap.firstPageId
  let (rid, page) ← inMemory (insertIntoPage order padding page row)
  modify (write heap.firstPageId page)
  modify (unpin heap.firstPageId true)
  return rid

/-- `getRow`. -/
def getRow (rid : RowId) : EStateM Fault BufferPool (Option Row) := do
  let page ← fetchPage rid.pageId
  let slotCount := page.recordCount
  modify (unpin rid.pageId false)
  if rid.slotIndex ≥ slotCount then return none
  else
    let entry ← inMemory (page.slotEntry rid.slotIndex)
    if entry.valid = 0 then return none
    else
      let data ← inMemory (page.peek entry.offset entry.length)
      return some (deserializeRowData data)

/-- `deleteRow`. -/
def deleteRow (rid : RowId) : EStateM Fault BufferPool Bool := do
  let page ← fetchPage rid.pageId
  let slotCount := page.recordCount
  if rid.slotIndex ≥ slotCount then
    modify (unpin rid.pageId false)
    return false
  else
    let entry ← inMemory (page.slotEntry rid.slotIndex)
    if entry.valid = 0 then
      modify (unpin rid.pageId false)
      return false
    else
      let page ← inMemory (page.setSlotEntry rid.slotIndex { entry with valid := 0 })
      modify (write rid.pageId page)
      modify (unpin rid.pageId true)
      return true

/-- `updateRow`: its first part is the code of `deleteRow`; what `insertRow` returns is not looked
at. -/
def updateRow (order : RowOrder) (padding : Byte) (heap : TableHeap) (rid : RowId) (newRow : Row) :
    EStateM Fault BufferPool Bool := do
  if ← deleteRow rid then
    let _ ← heap.insertRow order padding newRow
    return true
  else return false

/-- The loop of `scan` over the slots of a page, with `count` slots left. -/
def scanSlots (snapshot : Option MvccSnapshot) (pid : Nat) (page : Page) :
    (count i : Nat) → List (RowId × Row) → Except Fault (List (RowId × Row))
  | 0, _, results => return results
  | count + 1, i, results => do
    let entry ← page.slotEntry i
    if entry.valid = 0 then scanSlots snapshot pid page count (i + 1) results
    else
      let data ← page.peek entry.offset entry.length
      let row := deserializeRowData data
      let visible := snapshot.all fun snapshot =>
        snapshot.isVisible { data := row, createdBy := 1, deletedBy := 0 }
      scanSlots snapshot pid page count (i + 1)
        (if visible then results ++ [({ pageId := pid, slotIndex := i }, row)] else results)

/-- The loop of `scan` over the pages, with `count` ids left up to `INVALID_PAGE_ID`. -/
def scanPages (snapshot : Option MvccSnapshot) :
    (count pid : Nat) → List (RowId × Row) → EStateM Fault BufferPool (List (RowId × Row))
  | 0, _, results => return results
  | count + 1, pid, results => do
    let page ← fetchPage pid
    let results ← inMemory (scanSlots snapshot pid page page.recordCount 0 results)
    modify (unpin pid false)
    scanPages snapshot count (pid + 1) results

/-- `scan`. -/
def scan (heap : TableHeap) (snapshot : Option MvccSnapshot) :
    EStateM Fault BufferPool (List (RowId × Row)) :=
  scanPages snapshot (invalidPageId - heap.firstPageId) heap.firstPageId []

end TableHeap

end MyDb
