/-
**The buffer pool** (`src/buffer_pool.cpp`).

`pages_` maps a page id to its frame: the page's bytes, its dirty flag and its pin count. `lruList_`
is a linked list, so that an iterator into it stays valid while other nodes come and go: here it is
a list of nodes with addresses, and `lruMap_` maps a page id to the address of its node. A `Page*` a
caller holds is the id under which the frame is kept; `write` is a caller's change of the bytes
behind it.

A call runs on the pool's state and leaves it changed also when it throws.
-/

import Mathlib.Data.Finset.Sort
import Mathlib.Data.List.AList
import MyDatabaseEngine.Storage.DiskManager

namespace MyDb

open Outcome

/-- A page in memory, with the fields of `Page` that are not written to disk. -/
structure Frame where
  page : Page
  dirty : Bool := false
  pinCount : Nat := 0
  deriving DecidableEq

structure BufferPool where
  poolSize : Nat
  disk : DiskManager
  pages : Finmap fun _ : Nat => Frame := ∅
  lruList : AList fun _ : Nat => Nat := ∅
  lruMap : Finmap fun _ : Nat => Nat := ∅
  nextNode : Nat := 0

/-- An iteration order for `pages_`: every result holds for every such listing of the ids. -/
structure PageOrder where
  ids : (Finmap fun _ : Nat => Frame) → List Nat
  listing : ∀ pages, (ids pages : Multiset Nat) = pages.keys.val

instance : Inhabited PageOrder where
  default :=
    { ids := fun pages => pages.keys.sort (· ≤ ·)
      listing := fun pages => pages.keys.sort_eq (· ≤ ·) }

namespace BufferPool

/-- `disk_`'s call. -/
abbrev onDisk {α : Type} (call : EStateM Fault DiskManager α) : EStateM Fault BufferPool α :=
  onPart BufferPool.disk (fun pool disk => { pool with disk }) call

/-- `lruList_.push_front(pageId); lruMap_[pageId] = lruList_.begin();`. -/
def pushFront (pageId : Nat) (pool : BufferPool) : BufferPool :=
  { pool with
    lruList := pool.lruList.insert pool.nextNode pageId
    lruMap := pool.lruMap.insert pageId pool.nextNode
    nextNode := pool.nextNode + 1 }

/-- `touchPage`. -/
def touchPage (pageId : Nat) (pool : BufferPool) : BufferPool :=
  pushFront pageId
    (match pool.lruMap.lookup pageId with
    | some node => { pool with lruList := pool.lruList.erase node }
    | none => pool)

/-- `pages_[pageId] = std::move(page)`, or a change of the frame that is there. -/
def setFrame (pageId : Nat) (frame : Frame) (pool : BufferPool) : BufferPool :=
  { pool with pages := pool.pages.insert pageId frame }

/-- What the loop of `evict` finds, from the back of the list. -/
inductive Candidate
  | none
  | victim (node pageId : Nat) (frame : Frame)
  /-- A node whose page is not in `pages_`: the null pointer is dereferenced. -/
  | nullPage

/-- The loop of `evict`, on the nodes not walked over yet. -/
def candidate (pages : Finmap fun _ : Nat => Frame) : List (Σ _ : Nat, Nat) → Candidate
  | [] => .none
  | node :: rest =>
    match pages.lookup node.2 with
    | Option.none => .nullPage
    | some frame => if frame.pinCount > 0 then candidate pages rest else .victim node.1 node.2 frame

/-- `if (page->isDirty()) disk_.writePage(candidate, *page);`. -/
def writeBack (pageId : Nat) (frame : Frame) : EStateM Fault BufferPool Unit :=
  if frame.dirty then onDisk (DiskManager.writePage pageId frame.page) else return ()

/-- `evict`. -/
def evict : EStateM Fault BufferPool Bool := do
  let pool ← get
  match candidate pool.pages pool.lruList.entries.reverse with
  | .none => return false
  | .nullPage => throw .undefinedBehaviour
  | .victim node pageId frame =>
    writeBack pageId frame
    modify fun pool =>
      { pool with
        pages := pool.pages.erase pageId
        lruMap := pool.lruMap.erase pageId
        lruList := pool.lruList.erase node }
    return true

/-- `"Buffer pool full — all pages pinned"`. -/
def poolFull : Fault := .runtimeError (str "Buffer pool full — all pages pinned")

/-- `if (pages_.size() >= poolSize_) { if (!evict()) throw ...; }`. -/
def makeRoom : EStateM Fault BufferPool Unit := do
  let pool ← get
  if pool.pages.keys.card ≥ pool.poolSize then
    let evicted ← evict
    if !evicted then throw poolFull

/-- `fetchPage`: what the page holds when the call returns. -/
def fetchPage (pageId : Nat) : EStateM Fault BufferPool Page := do
  let pool ← get
  match pool.pages.lookup pageId with
  | some frame =>
    modify (touchPage pageId)
    modify (setFrame pageId { frame with pinCount := frame.pinCount + 1 })
    return frame.page
  | none =>
    makeRoom
    let page ← onDisk (DiskManager.readPage pageId)
    modify (setFrame pageId { page, pinCount := 1 })
    modify (pushFront pageId)
    return page

/-- `newPage`: what the page holds when the call returns. -/
def newPage : EStateM Fault BufferPool Page := do
  makeRoom
  let newId ← onDisk DiskManager.allocatePage
  let page := Page.new newId
  modify (setFrame newId { page, pinCount := 1, dirty := true })
  modify (pushFront newId)
  return page

/-- `unpin`. -/
def unpin (pageId : Nat) (isDirty : Bool) (pool : BufferPool) : BufferPool :=
  match pool.pages.lookup pageId with
  | none => pool
  | some frame =>
    setFrame pageId { frame with pinCount := frame.pinCount - 1, dirty := frame.dirty || isDirty }
      pool

/-- `flushPage`. -/
def flushPage (pageId : Nat) : EStateM Fault BufferPool Unit := do
  let pool ← get
  match pool.pages.lookup pageId with
  | none => return
  | some frame =>
    if frame.dirty then
      onDisk (DiskManager.writePage pageId frame.page)
      modify (setFrame pageId { frame with dirty := false })

/-- The loop of `flushAll`, over the ids not visited yet. -/
def flushEach : List Nat → EStateM Fault BufferPool Unit
  | [] => return
  | pageId :: rest => do
    flushPage pageId
    flushEach rest

/-- `flushAll`: the loop's body is that of `flushPage`. -/
def flushAll (order : PageOrder) : EStateM Fault BufferPool Unit := do
  flushEach (order.ids (← get).pages)

/-- A caller's change of the bytes behind the `Page*` of a frame. -/
def write (pageId : Nat) (page : Page) (pool : BufferPool) : BufferPool :=
  match pool.pages.lookup pageId with
  | none => pool
  | some frame => setFrame pageId { frame with page } pool

end BufferPool

/-- A step in memory, as part of a call. -/
def inMemory {α : Type} (result : Except Fault α) : EStateM Fault BufferPool α :=
  match result with
  | .ok value => return value
  | .error fault => throw fault

end MyDb
