/-
**The calls of a heap, on a pool.**

`Page.slots` are the rows of a page, slot by slot. On a well-slotted page `getRow`, `deleteRow` and
`insertRow` are what reading, removing and adding an entry are in a store whose slots are never used
twice, on the one page they visit; when no frame can be had they throw and nothing has changed.

`Owns` is the invariant of a heap: its page is there, well-slotted, and has its own id in its
header. It is a matter of that page's bytes, so whatever leaves the page alone keeps it
(`Owns.of_moves`), and so does each call (`Inserts.kept`, `Deletes.kept`). `updateRow` is one
deletion and one insertion, one after the other, each with the page in a frame of its own.
-/

import MyDatabaseEngine.Heap.FreeSpace
import MyDatabaseEngine.Heap.TableHeap
import MyDatabaseEngine.Lib.SlotArray
import MyDatabaseEngine.Storage.PageVisit

namespace MyDb

open Outcome

/-! ### The rows of a page -/

namespace Page

variable {page page' : Page} {text : Str} {i j : Nat}

/-- The row in a slot. -/
def rowAt (page : Page) (i : Nat) : Option Row :=
  if page.Live i then some (TableHeap.deserializeRowData (page.textAt i)) else none

/-- **The rows of a page**, slot by slot. -/
def slots (page : Page) : List (Option Row) := (List.range page.recordCount).map page.rowAt

@[simp]
theorem length_slots (page : Page) : page.slots.length = page.recordCount := by
  unfold slots
  rw [List.length_map, List.length_range]

@[simp]
theorem read_slots (page : Page) (i : Nat) : SlotArray.read page.slots i = page.rowAt i := by
  unfold SlotArray.read slots
  rw [List.getElem?_map]
  by_cases counted : i < page.recordCount
  · rw [List.getElem?_range counted]
    rfl
  · rw [List.getElem?_eq_none (by rwa [List.length_range, ← Nat.not_lt])]
    unfold rowAt
    rw [if_neg fun live => counted live.1]
    rfl

theorem isSome_rowAt : (page.rowAt i).isSome ↔ page.Live i := by
  unfold rowAt
  split
  · rename_i live
    exact iff_of_true rfl live
  · rename_i dead
    exact iff_of_false nofun dead

theorem rowAt_congr
    (count : page'.recordCount = page.recordCount ∨ i < page.recordCount ∧ i < page'.recordCount)
    (entry : page'.entryAt i = page.entryAt i)
    (text : page.Live i → page'.textAt i = page.textAt i) :
    page'.rowAt i = page.rowAt i := by
  have same : page'.Live i ↔ page.Live i := by
    unfold Live
    rw [entry]
    rcases count with same | both
    · rw [same]
    · exact and_congr_left fun _ => iff_of_true both.2 both.1
  unfold rowAt
  by_cases live : page.Live i
  · rw [if_pos (same.mpr live), if_pos live, text live]
  · rw [if_neg fun live' => live (same.mp live'), if_neg live]

/-- **A slot more is an entry added.** -/
theorem Grown.slots_eq (grown : page.Grown page' text) :
    page'.slots = SlotArray.apply page.slots (.add (TableHeap.deserializeRowData text)) := by
  unfold slots SlotArray.apply
  rw [grown.recordCount, List.range_succ, List.map_append, List.map_singleton]
  congr 1
  · refine List.map_congr_left fun i member => ?_
    have counted := List.mem_range.mp member
    refine rowAt_congr (.inr ⟨counted, ?_⟩) (grown.entries i counted) (grown.texts i)
    rw [grown.recordCount]
    exact Nat.lt_succ_of_lt counted
  · unfold rowAt
    rw [if_pos grown.live, grown.text]

/-- **A slot taken back is an entry removed.** -/
theorem Freed.slots_eq (freed : page.Freed page' i) :
    page'.slots = SlotArray.apply page.slots (.remove i) := by
  unfold slots SlotArray.apply
  refine List.ext_getElem? fun j => ?_
  rw [freed.recordCount, List.getElem?_map, List.getElem?_set, List.getElem?_map, List.length_map,
    List.length_range]
  by_cases counted : j < page.recordCount
  · rw [List.getElem?_range counted]
    by_cases same : i = j
    · rw [if_pos same, if_pos (same ▸ counted)]
      show some (page'.rowAt j) = some none
      unfold rowAt
      rw [if_neg fun live => live.2 (same ▸ freed.dead)]
    · rw [if_neg same]
      refine congrArg some (rowAt_congr (.inl freed.recordCount) ?_ ?_)
      · exact freed.entries j counted (Ne.symm same)
      · exact fun live => freed.texts j live (Ne.symm same)
  · have none : (List.range page.recordCount)[j]? = none :=
      List.getElem?_eq_none (by rwa [List.length_range, ← Nat.not_lt])
    rw [none]
    split
    · rename_i same
      rw [if_neg (same ▸ counted)]
      rfl
    · rfl

/-- All that can go wrong on a page is an access outside it. -/
theorem noWorse_peek {offset count : Nat} : NoWorse (page.peek offset count) := by
  unfold peek
  split
  · exact NoWorse.ok _
  · exact NoWorse.error

theorem noWorse_poke {offset : Nat} {bytes : Str} : NoWorse (page.poke offset bytes) := by
  unfold poke
  split
  · exact NoWorse.ok _
  · exact NoWorse.error

theorem noWorse_slotEntry : NoWorse (page.slotEntry i) := noWorse_peek.bind fun _ => NoWorse.ok _

theorem noWorse_setSlotEntry {entry : SlotEntry} : NoWorse (page.setSlotEntry i entry) :=
  noWorse_poke

theorem slots_of_empty (empty : page.recordCount = 0) : page.slots = [] := by
  unfold slots
  rw [empty]
  rfl

end Page

namespace TableHeap

open BufferPool

/-! ### What the calls do to their page -/

variable {pool pool' : BufferPool} {page page' : Page} {order : RowOrder} {padding : Byte}
  {row : Row} {rid : RowId} {heap : TableHeap}

/-- **What `insertRow` does to the page**: the row gets a new slot, or the page is full. -/
def Inserts (order : RowOrder) (page : Page) (row : Row) (rid : RowId) (page' : Page) : Prop :=
  (rid = { pageId := page.id, slotIndex := page.recordCount } ∧
      slotOffset (page.recordCount + 1) + (storedText order row).length ≤ page.dataStart ∧
      page.Grown page' (storedText order row)) ∨
    (rid = {} ∧ page.dataStart < slotOffset (page.recordCount + 1) + (storedText order row).length ∧
      page' = page)

/-- **What `deleteRow` does to the page**: a live slot is taken back. -/
def Deletes (page : Page) (i : Nat) (done : Bool) (page' : Page) : Prop :=
  (done = true ∧ page.Live i ∧ page' = page.withoutSlot i) ∨
    (done = false ∧ ¬ page.Live i ∧ page' = page)

theorem Inserts.kept (inserts : Inserts order page row rid page') (well : page.WellSlotted) :
    page'.WellSlotted ∧ page'.id = page.id := by
  rcases inserts with ⟨-, -, grown⟩ | ⟨-, -, rfl⟩
  · exact ⟨grown.well, grown.id⟩
  · exact ⟨well, rfl⟩

theorem Deletes.kept {i : Nat} {done : Bool} (deletes : Deletes page i done page')
    (well : page.WellSlotted) : page'.WellSlotted ∧ page'.id = page.id := by
  rcases deletes with ⟨-, live, rfl⟩ | ⟨-, -, rfl⟩
  · have freed := well.freed_withoutSlot live.1
    exact ⟨freed.well, freed.id⟩
  · exact ⟨well, rfl⟩

/-- **The heap's page**: well-slotted, and under its own id. -/
structure Owns (heap : TableHeap) (pool : BufferPool) (page : Page) : Prop where
  consistent : pool.Consistent
  holds : pool.content heap.firstPageId = some page
  well : page.WellSlotted
  id : page.id = heap.firstPageId

/-- The id of a page of the file is an id. -/
theorem Owns.valid (owns : Owns heap pool page) (i : Nat) :
    RowId.valid { pageId := heap.firstPageId, slotIndex := i } = true :=
  decide_eq_true
    ((lt_pageCount owns.consistent owns.holds).trans_le (pageCount_small owns.consistent)).ne

theorem Owns.of_moves (owns : Owns heap pool page) (moves : Moves pool pool' pool.content) :
    Owns heap pool' page :=
  ⟨moves.consistent, by rw [moves.content]; exact owns.holds, owns.well, owns.id⟩

theorem Owns.of_update (owns : Owns heap pool page)
    (moves : Moves pool pool' (Function.update pool.content heap.firstPageId (some page')))
    (kept : page'.WellSlotted ∧ page'.id = page.id) : Owns heap pool' page' :=
  ⟨moves.consistent, by rw [moves.content]; exact Function.update_self .., kept.1,
    kept.2.trans owns.id⟩

theorem inMemory_bind {α β : Type} (result : Except Fault α) (next : α → Except Fault β) :
    inMemory (result >>= next) = inMemory result >>= fun value => inMemory (next value) := by
  cases result <;> rfl

/-- `getRow` behind its `unpin`. -/
def readSlot (page : Page) (i : Nat) : Except Fault (Option Row) :=
  if i ≥ page.recordCount then return none
  else do
    let entry ← page.slotEntry i
    if entry.valid = 0 then return none
    else
      let data ← page.peek entry.offset entry.length
      return some (deserializeRowData data)

theorem inMemory_readSlot (page : Page) (i : Nat) :
    inMemory (readSlot page i) =
      if i ≥ page.recordCount then return none
      else do
        let entry ← inMemory (page.slotEntry i)
        if entry.valid = 0 then return none
        else
          let data ← inMemory (page.peek entry.offset entry.length)
          return some (deserializeRowData data) := by
  unfold readSlot
  split
  · rfl
  · rw [inMemory_bind]
    congr 1
    funext entry
    split
    · rfl
    · exact inMemory_bind _ _

theorem getRow_eq (rid : RowId) :
    getRow rid = (do
      let page ← fetchPage rid.pageId
      modify (unpin rid.pageId false)
      inMemory (readSlot page rid.slotIndex)) := by
  unfold getRow
  simp only [inMemory_readSlot]

theorem readSlot_eq (well : page.WellSlotted) (i : Nat) : readSlot page i = .ok (page.rowAt i) := by
  unfold readSlot Page.rowAt
  by_cases counted : i < page.recordCount
  · rw [if_neg (Nat.not_le.mpr counted), well.slotEntry counted]
    show (if (page.entryAt i).valid = 0 then _ else _) = _
    by_cases dead : (page.entryAt i).valid = 0
    · rw [if_pos dead, if_neg fun live => live.2 dead]
      rfl
    · rw [if_neg dead, if_pos ⟨counted, dead⟩, well.peek_text ⟨counted, dead⟩]
      rfl
  · rw [if_pos (Nat.not_lt.mp counted), if_neg fun live => counted live.1]
    rfl

/-! ### The calls -/

/-- `getRow`, on a page with any bytes. -/
theorem getRow_reads (ok : pool.Consistent) (holds : pool.content rid.pageId = some page) :
    Ends (getRow rid) pool
      (fun found pool' => readSlot page rid.slotIndex = .ok found ∧ Moves pool pool' pool.content)
      (fun fault pool' => Missed rid.pageId pool fault pool' ∨
        readSlot page rid.slotIndex = .error fault) := by
  rw [getRow_eq]
  refine fetching_ends ok holds (fun _ _ => .inl) fun pinned fetched => ?_
  rw [ends_modify_bind]
  have moves := (fetched.release ok).toMoves
  cases readSlot page rid.slotIndex with
  | ok found => exact ⟨rfl, moves⟩
  | error fault => exact .inr rfl

/-- **`getRow`** finds what the slot holds. -/
theorem getRow_ends (ok : pool.Consistent) (holds : pool.content rid.pageId = some page)
    (well : page.WellSlotted) :
    Ends (getRow rid) pool
      (fun found pool' => found = page.rowAt rid.slotIndex ∧ Moves pool pool' pool.content)
      (Missed rid.pageId pool) := by
  refine (getRow_reads ok holds).mono ?_ ?_
  · rintro found pool' ⟨reads, moves⟩
    exact ⟨Except.ok.inj (reads.symm.trans (readSlot_eq well _)), moves⟩
  · rintro fault pool' (missed | fails)
    · exact missed
    · exact nomatch fails.symm.trans (readSlot_eq well _)

/-- **`deleteRow`** takes back the slot if it is live. -/
theorem deleteRow_ends (ok : pool.Consistent) (holds : pool.content rid.pageId = some page)
    (well : page.WellSlotted) :
    Ends (deleteRow rid) pool
      (fun done pool' => ∃ page', Deletes page rid.slotIndex done page' ∧
        Moves pool pool' (Function.update pool.content rid.pageId (some page')))
      (Missed rid.pageId pool) := by
  unfold deleteRow
  refine fetching_ends ok holds (fun _ _ missed => missed) fun pinned fetched => ?_
  by_cases counted : rid.slotIndex < page.recordCount
  · unfold inMemory
    simp only [Nat.not_le.mpr counted, if_false, well.slotEntry counted, ends_pure_bind]
    by_cases dead : (page.entryAt rid.slotIndex).valid = 0
    · simp only [dead, if_true, ends_modify_bind, ends_pure]
      exact ⟨page, .inr ⟨rfl, fun live => live.2 dead, rfl⟩,
        (fetched.release ok).toMoves.update_self holds⟩
    · simp only [dead, if_false, well.setSlotEntry counted, ends_pure_bind,
        ends_modify_bind, ends_pure]
      exact ⟨_, .inl ⟨rfl, ⟨counted, dead⟩, rfl⟩, (fetched.releaseWritten _).toMoves⟩
  · simp only [Nat.not_lt.mp counted, if_true, ends_modify_bind, ends_pure]
    exact ⟨page, .inr ⟨rfl, fun live => counted live.1, rfl⟩,
      (fetched.release ok).toMoves.update_self holds⟩

/-- `deleteRow`, on a page with any bytes, changes no other page and leaves its page in the pool. -/
theorem deleteRow_visits (ok : pool.Consistent) :
    Ends (deleteRow rid) pool
      (fun _ pool' => (∃ page', Moves pool pool' (Function.update pool.content rid.pageId page')) ∧
        rid.pageId ∈ pool'.pages)
      (fun fault pool' => fault = .undefinedBehaviour ∨ Moves pool pool' pool.content) := by
  unfold deleteRow
  refine Ends.bind ((fetchPage_fetches ok rid.pageId).mono (fun _ _ done => done) ?_) ?_
  · rintro fault pool' (missed | ⟨-, -, moves⟩)
    · exact .inr missed.2.2.2
    · exact .inr moves
  rintro page pinned ⟨holds, fetched⟩
  have unchanged : (∃ page', Moves pool (unpin rid.pageId false pinned)
      (Function.update pool.content rid.pageId page')) ∧
      rid.pageId ∈ (unpin rid.pageId false pinned).pages :=
    ⟨⟨_, (fetched.release ok).toMoves.update_self holds⟩, mem_unpin.mpr fetched.cached⟩
  by_cases counted : rid.slotIndex ≥ page.recordCount
  · simp only [counted, if_true, ends_modify_bind, ends_pure]
    exact unchanged
  · simp only [counted, if_false]
    unfold inMemory
    cases read : page.slotEntry rid.slotIndex with
    | error fault => exact .inl (Page.noWorse_slotEntry fault read)
    | ok entry =>
      simp only [ends_pure_bind]
      by_cases dead : entry.valid = 0
      · simp only [dead, if_true, ends_modify_bind, ends_pure]
        exact unchanged
      · simp only [dead, if_false]
        cases stored : page.setSlotEntry rid.slotIndex { entry with valid := 0 } with
        | error fault => exact .inl (Page.noWorse_setSlotEntry fault stored)
        | ok page' =>
          simp only [ends_pure_bind, ends_modify_bind, ends_pure]
          exact ⟨⟨_, (fetched.releaseWritten page').toMoves⟩,
            mem_unpin.mpr (mem_write.mpr fetched.cached)⟩

/-- **`insertRow`** gives the row a new slot, if there is space. -/
theorem insertRow_ends (ok : pool.Consistent) (holds : pool.content heap.firstPageId = some page)
    (well : page.WellSlotted) (fits : (storedText order row).length ≤ page.dataStart) :
    Ends (heap.insertRow order padding row) pool
      (fun rid pool' => ∃ page', Inserts order page row rid page' ∧
        Moves pool pool' (Function.update pool.content heap.firstPageId (some page')))
      (Missed heap.firstPageId pool) := by
  have inserts : ∃ rid page', insertIntoPage order padding page row = .ok (rid, page') ∧
      Inserts order page row rid page' := by
    rcases insertIntoPage_cases order padding well row with
      ⟨long, -⟩ | ⟨-, full, refused⟩ | ⟨free, page', inserted, grown⟩
    · exact absurd fits (Nat.not_le.mpr long)
    · exact ⟨_, _, refused, .inr ⟨rfl, full, rfl⟩⟩
    · exact ⟨_, page', inserted, .inl ⟨rfl, free, grown⟩⟩
  obtain ⟨rid, page', ran, outcome⟩ := inserts
  unfold insertRow
  refine fetching_ends ok holds (fun _ _ missed => missed) fun pinned fetched => ?_
  unfold inMemory
  rw [ran]
  simp only [ends_pure_bind, ends_modify_bind, ends_pure]
  exact ⟨page', outcome, (fetched.releaseWritten page').toMoves⟩

/-- **`updateRow`** takes back the slot if it is live, and then inserts. -/
theorem updateRow_ends (ok : pool.Consistent) (holds : pool.content heap.firstPageId = some page)
    (well : page.WellSlotted) (onPage : rid.pageId = heap.firstPageId)
    (fits : (storedText order row).length ≤ (page.withoutSlot rid.slotIndex).dataStart) :
    Ends (heap.updateRow order padding rid row) pool
      (fun done pool' =>
        (done = true ∧ page.Live rid.slotIndex ∧
          ∃ newId page', Inserts order (page.withoutSlot rid.slotIndex) row newId page' ∧
            Moves pool pool' (Function.update pool.content heap.firstPageId (some page'))) ∨
          (done = false ∧ ¬ page.Live rid.slotIndex ∧ Moves pool pool' pool.content))
      (Missed heap.firstPageId pool) := by
  unfold updateRow
  have deletes := (@deleteRow_ends pool page rid ok (onPage ▸ holds) well).and
    (@deleteRow_visits pool rid ok)
  rw [onPage] at deletes
  refine Ends.bind (deletes.mono (fun _ _ done => done) fun _ _ both => both.1) ?_
  rintro done freedPool ⟨⟨freed, outcome, moves⟩, -, cached⟩
  rcases outcome with ⟨rfl, live, rfl⟩ | ⟨rfl, dead, rfl⟩
  · have freed := well.freed_withoutSlot live.1
    have holds' : freedPool.content heap.firstPageId = some (page.withoutSlot rid.slotIndex) := by
      rw [moves.content]
      exact Function.update_self ..
    refine Ends.bind ((insertRow_ends moves.consistent holds' freed.well fits).mono
      (fun _ _ done => done) fun _ _ missed => (missed.1 cached).elim) ?_
    rintro newId pool' ⟨page', inserts, moves'⟩
    rw [moves.content, Function.update_idem] at moves'
    exact .inl ⟨rfl, live, newId, page', inserts, moves.trans moves'⟩
  · rw [(Function.update_eq_self_iff ..).mpr holds.symm] at moves
    exact .inr ⟨rfl, dead, moves⟩

/-- **`create`** makes a heap of a new page. -/
theorem create_ends (ok : pool.Consistent) :
    Ends create pool
      (fun heap pool' => heap.firstPageId = pool.disk.pageCount ∧
        Moves pool pool' (Function.update pool.content heap.firstPageId
          (some (Page.new heap.firstPageId))))
      (fun fault pool' => Refused pool fault pool' ∨ DiskFull pool.disk.maxPages fault pool') := by
  unfold create
  refine Ends.bind ((newPage_makes ok).mono (fun _ _ made => made)
    fun _ _ failed => failed.imp_right And.left) ?_
  rintro page pinned ⟨rfl, isNext, -, -, -, moves⟩
  simp only [ends_modify_bind, ends_pure]
  rw [isNext]
  exact ⟨rfl, moves⟩

/-- A new heap has a page without slots. -/
theorem owns_create (ok : pool.Consistent) (ran : create pool = .ok heap pool') :
    ∃ page, Owns heap pool' page ∧ page.slots = [] := by
  obtain ⟨isNext, moves⟩ := (create_ends ok).of_ok ran
  have holds : pool'.content heap.firstPageId = some (Page.new heap.firstPageId) := by
    rw [moves.content]
    exact Function.update_self ..
  have small := (lt_pageCount moves.consistent holds).trans_le (pageCount_small moves.consistent)
  have empty := Page.recordCount_new heap.firstPageId
  exact ⟨_, ⟨moves.consistent, holds, Page.wellSlotted_of_empty empty, Page.id_new (by omega)⟩,
    Page.slots_of_empty empty⟩

/-- **A heap with one row**, made in a pool of one frame. -/
theorem exists_oneRow :
    ∃ (heap : TableHeap) (start pool pool' : BufferPool) (page : Page),
      start = onePagePool ∧ start.Consistent ∧ create start = .ok heap pool ∧ heap.firstPageId = 0 ∧
      Owns heap pool (Page.new 0) ∧ heap.insertRow default 0 (longRow 1) pool = .ok ⟨0, 0⟩ pool' ∧
      pool'.Ready ∧ Owns heap pool' page ∧
      (Page.new 0).Grown page (storedText default (longRow 1)) := by
  have readyStart := ready_onePagePool
  have made : returned (create onePagePool) = some ⟨0⟩ := by decide +kernel
  obtain ⟨start, isStart⟩ : ∃ start, start = onePagePool := ⟨_, rfl⟩
  rw [← isStart] at readyStart made
  cases created : create start with
  | error fault pool =>
    rw [created] at made
    exact nomatch made
  | ok heap pool =>
    rw [created] at made
    obtain rfl := Option.some.inj made
    have moves := ((create_ends readyStart.consistent).of_ok created).2
    have ready := moves.ready readyStart
    have count : (Page.new 0).recordCount = 0 := Page.recordCount_new 0
    have id : (Page.new 0).id = 0 := Page.id_new (by decide)
    have holds : pool.content 0 = some (Page.new 0) := by
      rw [moves.content, Function.update_self]
    have owns : Owns ⟨0⟩ pool (Page.new 0) :=
      ⟨ready.consistent, holds, Page.wellSlotted_of_empty count, id⟩
    have fits : (storedText default (longRow 1)).length ≤ (Page.new 0).dataStart := by
      decide +kernel
    have free : slotOffset ((Page.new 0).recordCount + 1) +
      (storedText default (longRow 1)).length ≤
        (Page.new 0).dataStart := by
      decide +kernel
    obtain ⟨rid, pool', ran, page, inserts, moves'⟩ := ((@insertRow_ends pool (Page.new 0) default 0
      (longRow 1) ⟨0⟩ ready.consistent holds owns.well fits).mono (fun _ _ done => done)
      fun _ _ => ready.not_missed).exists_ok
    have owns' := owns.of_update moves' (inserts.kept owns.well)
    obtain ⟨same, -, grown⟩ :=
      inserts.resolve_right fun full => absurd full.2.1 (Nat.not_lt.mpr free)
    rw [count, id] at same
    obtain rfl := same
    exact ⟨⟨0⟩, start, pool, pool', page, isStart, readyStart.consistent, created, rfl, owns, ran,
      moves'.ready ready, owns', grown⟩

end TableHeap

end MyDb
