/-
**Slotted pages** (the part of `src/table_heap.cpp` that works on one page).

Behind the page's header stands the slot directory, growing forward; the texts of the rows stand at
the end of the page, growing backward. A copy to or from bytes outside the page is undefined
behaviour.

The start of the row data is stored nowhere: it is the least offset of the slots in use
(`dataStartFrom`), so deleting the row that stands in front frees its bytes, and no other does. The
arithmetic of `insertIntoPage` is that of its types: the length of the text is a `uint16_t`, the
free space is compared as a `size_t`, and the offset is cut to 16 bits. `SlotEntry` has a byte of
padding. What the compiler leaves in it is a parameter of the model.
-/

import MyDatabaseEngine.Lib.FileStream
import MyDatabaseEngine.Storage.Page
import MyDatabaseEngine.Txn.RowCodec

namespace MyDb

/-! ### Bytes of a page -/

namespace Page

/-- `memcpy(destination, rawData() + offset, count)`. -/
def peek (page : Page) (offset count : Nat) : Except Fault Str :=
  if offset + count ≤ pageSize then .ok (FileStream.readAt page.bytes offset count)
  else .error .undefinedBehaviour

theorem length_writeAt_bytes (page : Page) {offset : Nat} {bytes : Str}
    (inside : offset + bytes.length ≤ pageSize) :
    (FileStream.writeAt page.bytes offset bytes).length = pageSize := by
  have whole := page.length_eq
  rw [FileStream.length_writeAt (by omega), whole]
  omega

/-- `memcpy(rawData() + offset, bytes, bytes.size())`. -/
def poke (page : Page) (offset : Nat) (bytes : Str) : Except Fault Page :=
  if inside : offset + bytes.length ≤ pageSize then
    .ok ⟨FileStream.writeAt page.bytes offset bytes, page.length_writeAt_bytes inside⟩
  else .error .undefinedBehaviour

/-- `header().recordCount`. -/
def recordCount (page : Page) : Nat := LittleEndian.value (FileStream.readAt page.bytes 6 2)

/-- `header().recordCount = count`. -/
def setRecordCount (page : Page) (count : Nat) : Page where
  bytes := FileStream.writeAt page.bytes 6 (LittleEndian.bytes 2 count)
  length_eq := page.length_writeAt_bytes <| by
    rw [LittleEndian.length_bytes]
    decide

end Page

/-! ### Slots -/

structure SlotEntry where
  offset : Nat
  length : Nat
  valid : Byte
  padding : Byte
  deriving DecidableEq

namespace SlotEntry

/-- The entry in memory. -/
def bytes (entry : SlotEntry) : Str :=
  LittleEndian.bytes 2 entry.offset ++ LittleEndian.bytes 2 entry.length ++
    [entry.valid, entry.padding]

/-- The entry that these bytes are in memory. -/
def ofBytes (bytes : Str) : SlotEntry where
  offset := LittleEndian.value (bytes.take 2)
  length := LittleEndian.value ((bytes.drop 2).take 2)
  valid := bytes.getD 4 0
  padding := bytes.getD 5 0

end SlotEntry

/-- `SLOT_DIR_START`. -/
def slotDirStart : Nat := headerSize + 2

/-- `SLOT_SIZE`, `sizeof(SlotEntry)`. -/
def slotSize : Nat := 6

/-- `SLOT_DIR_START + i * SLOT_SIZE`. -/
def slotOffset (i : Nat) : Nat := slotDirStart + i * slotSize

namespace Page

/-- `memcpy(&entry, rawData() + SLOT_DIR_START + i * SLOT_SIZE, SLOT_SIZE)`. -/
def slotEntry (page : Page) (i : Nat) : Except Fault SlotEntry := do
  return SlotEntry.ofBytes (← page.peek (slotOffset i) slotSize)

/-- `memcpy(rawData() + SLOT_DIR_START + i * SLOT_SIZE, &entry, SLOT_SIZE)`. -/
def setSlotEntry (page : Page) (i : Nat) (entry : SlotEntry) : Except Fault Page :=
  page.poke (slotOffset i) entry.bytes

/-- The loop that looks for the start of the row data, with `count` slots left to look at. -/
def dataStartFrom (page : Page) : (count i dataStart : Nat) → Except Fault Nat
  | 0, _, dataStart => return dataStart
  | count + 1, i, dataStart => do
    let e ← page.slotEntry i
    dataStartFrom page count (i + 1)
      (if e.valid ≠ 0 ∧ e.offset < dataStart then e.offset else dataStart)

end Page

structure RowId where
  pageId : Nat := invalidPageId
  slotIndex : Nat := 0
  deriving DecidableEq

/-- `RowId::valid`. -/
def RowId.valid (rid : RowId) : Bool := rid.pageId ≠ invalidPageId

namespace TableHeap

/-- `serializeRowData`, the same code as the WAL's. -/
def serializeRowData (order : RowOrder) (row : Row) : Str := serializeRow order row

/-- `deserializeRowData`, the same code as the WAL's. -/
def deserializeRowData (s : Str) : Row := deserializeRow s

/-- `insertIntoPage`: what it returns, and the page as it leaves it. In the comparison `dataStart -
dataLen` is an `int` that is converted to `size_t`; in `rowOffset` it is narrowed to 16 bits. -/
def insertIntoPage (order : RowOrder) (padding : Byte) (page : Page) (row : Row) :
    Except Fault (RowId × Page) := do
  let data := serializeRowData order row
  let dataLen : Nat := data.length % 2 ^ 16
  let slotCount := page.recordCount
  let slotDirEnd := slotOffset slotCount
  let dataStart ← page.dataStartFrom slotCount 0 pageSize
  if ((slotDirEnd + slotSize : Nat) : Int) > ((dataStart : Int) - dataLen) % 2 ^ 64 then
    return ({ pageId := invalidPageId, slotIndex := 0 }, page)
  else
    let rowOffset := (((dataStart : Int) - dataLen) % 2 ^ 16).toNat
    let page ← page.poke rowOffset (data.take dataLen)
    let page ← page.setSlotEntry slotCount
      { offset := rowOffset, length := dataLen, valid := 1, padding }
    let page := page.setRecordCount (slotCount + 1)
    return ({ pageId := page.id, slotIndex := slotCount }, page)

end TableHeap

end MyDb
