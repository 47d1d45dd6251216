/-
**The disk manager** (`src/disk_manager.cpp`).

The database file is a stream of bytes. A call runs on the manager's state and leaves it changed
also when it throws, so the model is an `EStateM`. The file cannot grow beyond `maxPages` pages: a
write past that fails, as it does on a full disk. `maxPages` is below `2^32`, so a page id never
wraps around and none is `INVALID_PAGE_ID`.

On a `Usable` manager, `page?` says what each page holds; `readPage_ends`, `writePage_ends` and
`allocatePage_ends` are the three calls' specifications in these terms.
-/

import MyDatabaseEngine.Storage.Page
import MyDatabaseEngine.Lib.FileStream
import MyDatabaseEngine.Lib.Outcome

namespace MyDb

open Outcome

structure DiskManager where
  file : FileStream Byte
  pageCount : Nat
  maxPages : Nat
  maxPages_lt : maxPages < 2 ^ 32

namespace DiskManager

/-- `pageOffset`. -/
def pageOffset (pageId : Nat) : Nat := pageId * pageSize

/-- The constructor, on a file holding these bytes. -/
def openFile (bytes : Str) (maxPages : Nat) (maxPages_lt : maxPages < 2 ^ 32) : DiskManager where
  file := FileStream.seekEnd { bytes }
  pageCount := bytes.length / pageSize % 2 ^ 32
  maxPages := maxPages
  maxPages_lt := maxPages_lt

/-- `"Page " + std::to_string(pageId) + " does not exist"`. -/
def noSuchPage (pageId : Nat) : Fault :=
  .runtimeError (str "Page " ++ toString10 pageId ++ str " does not exist")

/-- `"Failed to read page " + std::to_string(pageId)`. -/
def failedToRead (pageId : Nat) : Fault :=
  .runtimeError (str "Failed to read page " ++ toString10 pageId)

/-- `"Failed to write page " + std::to_string(pageId)`. -/
def failedToWrite (pageId : Nat) : Fault :=
  .runtimeError (str "Failed to write page " ++ toString10 pageId)

/-- `readPage`: the bytes the page object holds afterwards. -/
def readPage (pageId : Nat) : EStateM Fault DiskManager Page := fun disk =>
  if pageId ≥ disk.pageCount then .error (noSuchPage pageId) disk
  else
    let got := (disk.file.seek (pageOffset pageId)).read pageSize
    if success : got.2.fail = false then
      .ok ⟨got.1, (FileStream.read_success success).1⟩ { disk with file := got.2 }
    else .error (failedToRead pageId) { disk with file := got.2 }

/-- `file_.write(page.rawData(), PAGE_SIZE)` at the stream's position, on a file of limited size. -/
def writeWithin (maxPages : Nat) (bytes : Str) (file : FileStream Byte) : FileStream Byte :=
  if file.pos + bytes.length ≤ maxPages * pageSize then file.write bytes
  else { file with fail := true }

/-- `writePage`. -/
def writePage (pageId : Nat) (page : Page) : EStateM Fault DiskManager Unit := fun disk =>
  let file := disk.file.seek (pageOffset pageId)
  let file := (writeWithin disk.maxPages page.bytes file).flush
  if file.fail then .error (failedToWrite pageId) { disk with file }
  else .ok ()
    { disk with
      file, pageCount := if pageId ≥ disk.pageCount then pageId + 1 else disk.pageCount }

/-- `allocatePage`. -/
def allocatePage : EStateM Fault DiskManager Nat := do
  let newId := (← get).pageCount
  writePage newId (Page.new newId)
  return newId

/-! ### What the calls do -/

/-- The stream is good, and the pages counted are those the file holds. -/
structure Usable (disk : DiskManager) : Prop where
  good : disk.file.good = true
  pageCount : disk.pageCount = disk.file.bytes.length / pageSize
  fits : disk.pageCount ≤ disk.maxPages

/-- The page these bytes are. -/
def page? (disk : DiskManager) (pageId : Nat) : Option Page :=
  if whole : (FileStream.readAt disk.file.bytes (pageOffset pageId) pageSize).length = pageSize then
    some ⟨_, whole⟩
  else none

variable {disk : DiskManager}

theorem page?_eq_some {pageId : Nat} {page : Page} :
    disk.page? pageId = some page ↔
      FileStream.readAt disk.file.bytes (pageOffset pageId) pageSize = page.bytes := by
  unfold page?
  constructor
  · intro same
    split at same
    · rw [← Option.some.inj same]
    · exact nomatch same
  · intro same
    rw [dif_pos (by rw [same]; exact page.length_eq)]
    simp only [same]

theorem page?_congr {disk' : DiskManager} (same : disk'.file.bytes = disk.file.bytes) :
    disk'.page? = disk.page? := by
  funext pageId
  unfold page?
  simp only [same]

/-- An opened file can be used. -/
theorem usable_openFile {bytes : Str} {maxPages : Nat} (maxPages_lt : maxPages < 2 ^ 32)
    (fits : bytes.length / pageSize ≤ maxPages) :
    (openFile bytes maxPages maxPages_lt).Usable := by
  have small : bytes.length / pageSize % 2 ^ 32 = bytes.length / pageSize :=
    Nat.mod_eq_of_lt (lt_of_le_of_lt fits maxPages_lt)
  have seeked : FileStream.seekEnd ({ bytes } : FileStream Byte) = { bytes, pos := bytes.length } :=
    FileStream.seek_of_good rfl bytes.length
  refine ⟨?_, ?_, ?_⟩
  · show FileStream.good (FileStream.seekEnd { bytes }) = true
    rw [seeked]
    rfl
  · show bytes.length / pageSize % 2 ^ 32 = (FileStream.seekEnd { bytes }).bytes.length / pageSize
    rw [small, seeked]
  · show bytes.length / pageSize % 2 ^ 32 ≤ maxPages
    rw [small]
    exact fits

theorem Usable.inside (usable : disk.Usable) {pageId : Nat} :
    pageId < disk.pageCount ↔ pageOffset pageId + pageSize ≤ disk.file.bytes.length := by
  have whole := usable.pageCount
  unfold pageOffset pageSize at *
  omega

theorem Usable.page?_isSome (usable : disk.Usable) {pageId : Nat} :
    (disk.page? pageId).isSome ↔ pageId < disk.pageCount := by
  unfold page?
  rw [usable.inside]
  split
  · rename_i whole
    rw [FileStream.length_readAt] at whole
    simp only [Option.isSome_some, true_iff]
    unfold pageSize at *
    omega
  · rename_i short
    rw [FileStream.length_readAt] at short
    simp only [Option.isSome_none, Bool.false_eq_true, false_iff]
    omega

/-- **`readPage` returns what the page holds.** -/
theorem readPage_ends (usable : disk.Usable) (pageId : Nat) :
    Ends (readPage pageId) disk
      (fun page disk' => disk.page? pageId = some page ∧ disk'.Usable ∧
        disk'.page? = disk.page? ∧ disk'.pageCount = disk.pageCount ∧
          disk'.maxPages = disk.maxPages)
      (fun fault disk' => fault = noSuchPage pageId ∧ disk.page? pageId = none ∧ disk' = disk) := by
  by_cases there : pageId < disk.pageCount
  · obtain ⟨page, found⟩ := Option.isSome_iff_exists.mp (usable.page?_isSome.mpr there)
    have holds := page?_eq_some.mp found
    have got := FileStream.read_seek_of_le usable.good (usable.inside.mp there)
    have ran : readPage pageId disk = .ok page
        { disk with file := { disk.file with pos := pageOffset pageId + pageSize } } := by
      unfold readPage
      rw [if_neg (Nat.not_le.mpr there)]
      simp only [got, holds]
      rw [dif_pos (FileStream.fail_of_good usable.good)]
    exact ends_of_eq_ok ran ⟨found, ⟨usable.good, usable.pageCount, usable.fits⟩,
      page?_congr rfl, rfl, rfl⟩
  · have missing : disk.page? pageId = none := by
      rw [← Option.not_isSome_iff_eq_none, usable.page?_isSome]
      exact there
    have ran : readPage pageId disk = .error (noSuchPage pageId) disk := by
      unfold readPage
      rw [if_pos (Nat.not_lt.mp there)]
    exact ends_of_eq_error ran ⟨rfl, missing, rfl⟩

/-- A write within the limit reaches the file. -/
theorem writePage_eq_ok (usable : disk.Usable) {pageId : Nat} (page : Page)
    (room : pageId < disk.maxPages) :
    writePage pageId page disk = .ok ()
      { disk with
        file :=
          { disk.file with
            bytes := FileStream.writeAt disk.file.bytes (pageOffset pageId) page.bytes
            pos := pageOffset pageId + page.bytes.length }
        pageCount := max disk.pageCount (pageId + 1) } := by
  have short : pageOffset pageId + page.bytes.length ≤ disk.maxPages * pageSize := by
    unfold pageOffset
    rw [page.length_eq, ← Nat.succ_mul]
    exact Nat.mul_le_mul_right _ room
  have within : writeWithin disk.maxPages page.bytes (disk.file.seek (pageOffset pageId)) =
      (disk.file.seek (pageOffset pageId)).write page.bytes := by
    unfold writeWithin
    rw [FileStream.seek_of_good usable.good, if_pos short]
  have count : (if pageId ≥ disk.pageCount then pageId + 1 else disk.pageCount) =
      max disk.pageCount (pageId + 1) := by
    split <;> omega
  unfold writePage
  simp only [within, FileStream.flush, FileStream.write_seek_of_good usable.good, count]
  rw [if_neg (by simp [FileStream.fail_of_good usable.good])]

/-- A write past the limit fails. -/
theorem writePage_eq_error (usable : disk.Usable) {pageId : Nat} (page : Page)
    (full : disk.maxPages ≤ pageId) :
    writePage pageId page disk = .error (failedToWrite pageId)
      { disk with file := { disk.file with pos := pageOffset pageId, fail := true } } := by
  have long : ¬ pageOffset pageId + page.bytes.length ≤ disk.maxPages * pageSize := by
    have least := Nat.mul_le_mul_right pageSize full
    have whole := page.length_eq
    unfold pageOffset
    unfold pageSize at *
    omega
  unfold writePage writeWithin
  simp only [FileStream.seek_of_good usable.good, if_neg long, FileStream.flush, if_true]

/-- **`writePage` changes the one page**, as long as the file has room for it. -/
theorem writePage_ends (usable : disk.Usable) {pageId : Nat} (page : Page)
    (next : pageId ≤ disk.pageCount) :
    Ends (writePage pageId page) disk
      (fun _ disk' => disk'.Usable ∧ disk'.page? = Function.update disk.page? pageId (some page) ∧
        disk'.pageCount = max disk.pageCount (pageId + 1) ∧ disk'.maxPages = disk.maxPages)
      (fun fault disk' => fault = failedToWrite pageId ∧ disk.maxPages ≤ pageId ∧
        disk'.pageCount = disk.pageCount ∧ disk'.file.fail = true) := by
  have whole := page.length_eq
  have counted := usable.pageCount
  have inside : pageOffset pageId ≤ disk.file.bytes.length := by
    unfold pageOffset pageSize at *
    omega
  rcases Nat.lt_or_ge pageId disk.maxPages with room | full
  · refine ends_of_eq_ok (writePage_eq_ok usable page room)
      ⟨⟨usable.good, ?_, max_le usable.fits room⟩, ?_, rfl, rfl⟩
    · show max disk.pageCount (pageId + 1) = List.length (FileStream.writeAt _ _ _) / pageSize
      rw [FileStream.length_writeAt inside, whole]
      unfold pageOffset pageSize at *
      omega
    · funext other
      by_cases same : other = pageId
      · rw [same, Function.update_self, page?_eq_some, ← whole]
        exact FileStream.readAt_writeAt inside page.bytes
      · rw [Function.update_of_ne same]
        have untouched : FileStream.readAt
            (FileStream.writeAt disk.file.bytes (pageOffset pageId) page.bytes)
            (pageOffset other) pageSize =
            FileStream.readAt disk.file.bytes (pageOffset other) pageSize := by
          refine FileStream.readAt_writeAt_of_disjoint inside ?_
          rw [whole]
          unfold pageOffset pageSize
          omega
        unfold page?
        simp only [untouched]
  · exact ends_of_eq_error (writePage_eq_error usable page full) ⟨rfl, full, rfl, rfl⟩

/-- **`allocatePage` adds one page**, unless the file is at its limit. -/
theorem allocatePage_ends (usable : disk.Usable) :
    Ends allocatePage disk
      (fun newId disk' => newId = disk.pageCount ∧ newId < disk.maxPages ∧ disk'.Usable ∧
        disk'.page? = Function.update disk.page? newId (some (Page.new newId)) ∧
        disk'.pageCount = newId + 1 ∧ disk'.maxPages = disk.maxPages)
      (fun fault disk' => fault = failedToWrite disk.maxPages ∧ disk.pageCount = disk.maxPages ∧
        disk'.pageCount = disk.maxPages ∧ disk'.file.fail = true) := by
  unfold allocatePage
  rw [ends_get_bind]
  refine Ends.bind ((writePage_ends usable (Page.new disk.pageCount) le_rfl).mono
    (fun _ _ wrote => wrote) ?_) ?_
  · rintro fault disk' ⟨rfl, full, same, failed⟩
    have limit := Nat.le_antisymm usable.fits full
    exact ⟨by rw [limit], limit, same.trans limit, failed⟩
  · rintro - disk' ⟨usable', holds, count, max⟩
    rw [ends_pure]
    have grown : disk'.pageCount = disk.pageCount + 1 := by
      rw [count]
      exact Nat.max_eq_right (Nat.le_succ _)
    refine ⟨rfl, ?_, usable', holds, grown, max⟩
    have fits := usable'.fits
    rw [grown, max] at fits
    exact fits

end DiskManager

end MyDb
