/-
**Pages** (`include/page.h`).

A `PageId` (`uint32_t`) is a `Nat`, and a page is its 4096 bytes, as a list of that length: the
length is a field, so that no page is shorter. A header of twelve bytes comes first, then the data
area. Of the header's fields only the ids that the code reads are decoded here; the heap decodes its
own counters from the same bytes. The pin count and the dirty flag of `Page` belong to its frame in
the buffer pool, and are there. `overwriteData` is the one way in which a node's text gets onto a
page: what is longer than the data area is cut, and what is behind a shorter one stays.
-/

import MyDatabaseEngine.Basic
import MyDatabaseEngine.Lib.LittleEndian

namespace MyDb

/-- `PAGE_SIZE`. -/
def pageSize : Nat := 4096

/-- `INVALID_PAGE_ID`, `UINT32_MAX`. -/
def invalidPageId : Nat := 2 ^ 32 - 1

/-- `sizeof(PageHeader)`: `pageId`, `freeSpace`, `recordCount` and `checksum`, without padding. -/
def headerSize : Nat := 12

/-- **A page's bytes.** -/
structure Page where
  bytes : Str
  length_eq : bytes.length = pageSize
  deriving DecidableEq

namespace Page

/-- `Page(id)`: the header of an empty page, then zeros. -/
def new (id : Nat) : Page where
  bytes := LittleEndian.bytes 4 id ++ LittleEndian.bytes 2 (pageSize - headerSize) ++
    LittleEndian.bytes 2 0 ++ LittleEndian.bytes 4 0 ++ List.replicate (pageSize - headerSize) 0
  length_eq := by
    simp only [List.length_append, LittleEndian.length_bytes, List.length_replicate]
    rfl

/-- `id()`. -/
def id (page : Page) : Nat := LittleEndian.value (page.bytes.take 4)

theorem id_new {pageId : Nat} (small : pageId < 2 ^ 32) : (new pageId).id = pageId := by
  unfold id new
  simp only [List.append_assoc]
  rw [List.take_left' (LittleEndian.length_bytes 4 pageId)]
  exact LittleEndian.value_bytes small

/-- The bytes behind the header. -/
def data (page : Page) : Str := page.bytes.drop headerSize

/-- `memcpy(rawData() + sizeof(PageHeader), bytes, min(bytes.size(), PAGE_SIZE -
sizeof(PageHeader)))`. -/
def overwriteData (page : Page) (bytes : Str) : Page where
  bytes := page.bytes.take headerSize ++
    (bytes.take (pageSize - headerSize) ++ page.data.drop bytes.length)
  length_eq := by
    have whole := page.length_eq
    simp only [data, List.length_append, List.length_take, List.length_drop, whole]
    simp only [pageSize, headerSize]
    omega

end Page

end MyDb
