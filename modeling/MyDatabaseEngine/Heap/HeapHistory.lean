/-
**The rows of a heap over its whole life.**

A run is what happens to a heap from `create` on: `insertRow` and `deleteRow` calls, and in between
whatever others do to other pages. The page then holds what a store whose slots are never used twice
holds after the same insertions and removals (`HeapRun.recorded`). Hence `heapRun_keeps_rows`: ids
are never given twice, and `getRow` finds the row until it is deleted.

The step lemma is `HeapStep.advances`: an insertion that found space adds an entry, one that found
none changes nothing, a deletion of a slot in use removes it, and a call that throws leaves the page
as it was. The store is the library's, and the run lemma carries what is true of its slots over to
the ids that the heap has given.
-/

import MyDatabaseEngine.Heap.HeapVisits

namespace MyDb

open Outcome SlotArray

namespace TableHeap

open BufferPool

/-- What happens to a heap. -/
inductive HeapEvent
  | inserted (row : Row) (rid : RowId)
  | deleted (rid : RowId) (done : Bool)
  /-- An `insertRow` or `deleteRow` that threw. -/
  | threw
  /-- Anything that writes no byte of the heap's page. -/
  | others
  deriving DecidableEq

/-- **A step of a run.** An inserted row has a faithful text, no longer than the page's data start.
A `deleteRow` may be given any id; on a page of other bytes it may read or write outside the page,
and then there is no next state. -/
inductive HeapStep (heap : TableHeap) (pool : BufferPool) : HeapEvent → BufferPool → Prop
  | insert {order : RowOrder} {padding : Byte} {row : Row} {page : Page} {rid : RowId}
    {pool' : BufferPool} :
      FaithfulText row → pool.content heap.firstPageId = some page →
      (serializeRowData order row).length ≤ page.dataStart →
      heap.insertRow order padding row pool = .ok rid pool' →
        HeapStep heap pool (.inserted row rid) pool'
  | insertThrows {order : RowOrder} {padding : Byte} {row : Row} {page : Page} {fault : Fault}
      {pool' : BufferPool} :
      FaithfulText row → pool.content heap.firstPageId = some page →
      (serializeRowData order row).length ≤ page.dataStart →
      heap.insertRow order padding row pool = .error fault pool' → HeapStep heap pool .threw pool'
  | delete {rid : RowId} {done : Bool} {pool' : BufferPool} :
      deleteRow rid pool = .ok done pool' → HeapStep heap pool (.deleted rid done) pool'
  | deleteThrows {rid : RowId} {fault : Fault} {pool' : BufferPool} :
      (fault = .undefinedBehaviour → rid.pageId = heap.firstPageId) →
      deleteRow rid pool = .error fault pool' → HeapStep heap pool .threw pool'
  | others {pool' : BufferPool} :
      pool'.Consistent → pool'.content heap.firstPageId = pool.content heap.firstPageId →
      HeapStep heap pool .others pool'

/-- **A run** from `create` on. -/
inductive HeapRun (heap : TableHeap) : List HeapEvent → BufferPool → Prop
  | create {pool pool' : BufferPool} :
      pool.Consistent → create pool = .ok heap pool' → HeapRun heap [] pool'
  | step {events : List HeapEvent} {event : HeapEvent} {pool pool' : BufferPool} :
      HeapRun heap events pool → HeapStep heap pool event pool' →
        HeapRun heap (events ++ [event]) pool'

/-! ### The store behind the page -/

/-- What an event changes in the store. -/
def HeapEvent.change? (heap : TableHeap) : HeapEvent → Option (Change Row)
  | .inserted row rid => if rid.valid then some (.add row) else none
  | .deleted rid done =>
    if done ∧ rid.pageId = heap.firstPageId then some (.remove rid.slotIndex) else none
  | _ => none

/-- The changes of the store. -/
def changes (heap : TableHeap) (events : List HeapEvent) : List (Change Row) :=
  events.filterMap (HeapEvent.change? heap)

/-- **The page holds what the store holds.** -/
structure Recorded (heap : TableHeap) (events : List HeapEvent) (pool : BufferPool) (page : Page) :
    Prop
    extends Owns heap pool page where
  slots : page.slots = after [] (heap.changes events)

variable {heap : TableHeap} {events : List HeapEvent} {event : HeapEvent} {pool pool' : BufferPool}
  {page : Page} {order : RowOrder} {padding : Byte} {row : Row} {rid other : RowId}

theorem changes_append (front back : List HeapEvent) :
    heap.changes (front ++ back) = heap.changes front ++ heap.changes back := List.filterMap_append

theorem change?_eq_remove {i : Nat} :
    event.change? heap = some (.remove i) ↔
      event = .deleted { pageId := heap.firstPageId, slotIndex := i } true := by
  cases event with
  | inserted row rid =>
    refine iff_of_false (fun change => ?_) nofun
    exact nomatch (Option.ite_none_right_eq_some.mp change).2
  | deleted rid done =>
    constructor
    · intro change
      obtain ⟨⟨isDone, onPage⟩, slot⟩ := Option.ite_none_right_eq_some.mp change
      rw [isDone, ← onPage, ← Change.remove.inj (Option.some.inj slot)]
    · intro same
      obtain ⟨rfl, rfl⟩ := HeapEvent.deleted.inj same
      exact if_pos ⟨rfl, rfl⟩
  | threw => exact iff_of_false nofun nofun
  | others => exact iff_of_false nofun nofun

theorem change?_eq_add : event.change? heap = some (.add row) ↔
    ∃ rid, event = .inserted row rid ∧ rid.valid = true := by
  cases event with
  | inserted row' rid =>
    constructor
    · intro change
      obtain ⟨valid, same⟩ := Option.ite_none_right_eq_some.mp change
      rw [← Change.add.inj (Option.some.inj same)]
      exact ⟨rid, rfl, valid⟩
    · rintro ⟨rid', same, valid⟩
      obtain ⟨rfl, rfl⟩ := HeapEvent.inserted.inj same
      exact if_pos valid
  | deleted rid done =>
    refine iff_of_false (fun change => ?_) nofun
    exact nomatch (Option.ite_none_right_eq_some.mp change).2
  | threw => exact iff_of_false nofun nofun
  | others => exact iff_of_false nofun nofun

/-- A removal in the store is a deletion of the id. -/
theorem remove_mem_changes {i : Nat} :
    .remove i ∈ heap.changes events ↔
      .deleted { pageId := heap.firstPageId, slotIndex := i } true ∈ events := by
  unfold changes
  rw [List.mem_filterMap]
  simp only [change?_eq_remove, exists_eq_right]

/-- **What a step does to the pages.** -/
structure Advances (heap : TableHeap) (pool pool' : BufferPool) (page page' : Page)
    (event : HeapEvent) :
    Prop where
  owns : Owns heap pool' page'
  slots : page'.slots = after page.slots (event.change? heap).toList
  issued : ∀ row rid, event = .inserted row rid → rid.valid = true →
    rid = { pageId := heap.firstPageId, slotIndex := page.slots.length }
  full : ∀ row rid, event = .inserted row rid → rid.valid = false → pool'.content = pool.content
  elsewhere : event ≠ .others →
    (∀ rid done, event = .deleted rid done → rid.pageId = heap.firstPageId) →
    ∀ pageId, pageId ≠ heap.firstPageId → pool'.content pageId = pool.content pageId

/-- A step that changes nothing. -/
theorem Owns.unchanged (owns : Owns heap pool page) (moves : Moves pool pool' pool.content)
    (nothing : event.change? heap = none) : Advances heap pool pool' page page event where
  owns := owns.of_moves moves
  slots := by
    rw [nothing]
    rfl
  issued := by
    rintro row rid rfl valid
    exact nomatch nothing.symm.trans (if_pos valid)
  full := fun _ _ _ _ => moves.content
  elsewhere := fun _ _ _ _ => by rw [moves.content]

theorem advances_insert (owns : Owns heap pool page) (faithful : FaithfulText row) {page' : Page}
    (text : storedText order row = serializeRowData order row)
    (inserts : Inserts order page row rid page')
    (moves : Moves pool pool' (Function.update pool.content heap.firstPageId (some page'))) :
    Advances heap pool pool' page page' (.inserted row rid) := by
  have kept := inserts.kept owns.well
  rcases inserts with ⟨rfl, -, grown⟩ | ⟨rfl, -, rfl⟩
  · have valid := owns.valid page.recordCount
    rw [owns.id]
    refine ⟨owns.of_update moves kept, ?_, ?_, ?_, fun _ _ pageId apart => ?_⟩
    · have change : HeapEvent.change? heap
          (.inserted row { pageId := heap.firstPageId, slotIndex := page.recordCount }) =
          some (.add row) := if_pos valid
      have back : deserializeRowData (storedText order row) = row := by
        rw [text]
        exact deserializeRow_serializeRow order faithful
      rw [grown.slots_eq, change, back]
      rfl
    · intro row' rid' same _
      rw [← (HeapEvent.inserted.inj same).2, Page.length_slots]
    · intro row' rid' same invalid
      rw [← (HeapEvent.inserted.inj same).2] at invalid
      exact Bool.noConfusion (invalid.symm.trans valid)
    · rw [moves.content]
      exact Function.update_of_ne apart ..
  · rw [(Function.update_eq_self_iff ..).mpr owns.holds.symm] at moves
    exact owns.unchanged moves rfl

theorem advances_delete (owns : Owns heap pool page) (onPage : rid.pageId = heap.firstPageId)
    {done : Bool} {page' : Page} (deletes : Deletes page rid.slotIndex done page')
    (moves : Moves pool pool' (Function.update pool.content heap.firstPageId (some page'))) :
    Advances heap pool pool' page page' (.deleted rid done) := by
  have kept := deletes.kept owns.well
  rcases deletes with ⟨rfl, live, rfl⟩ | ⟨rfl, -, rfl⟩
  · refine ⟨owns.of_update moves kept, ?_, nofun, nofun, fun _ _ pageId apart => ?_⟩
    · have change : HeapEvent.change? heap (.deleted rid true) = some (.remove rid.slotIndex) :=
        if_pos ⟨rfl, onPage⟩
      rw [(owns.well.freed_withoutSlot live.1).slots_eq, change]
      rfl
    · rw [moves.content]
      exact Function.update_of_ne apart ..
  · rw [(Function.update_eq_self_iff ..).mpr owns.holds.symm] at moves
    exact owns.unchanged moves rfl

/-- **Step lemma.** -/
theorem HeapStep.advances (step : HeapStep heap pool event pool') (owns : Owns heap pool page) :
    ∃ page', Advances heap pool pool' page page' event := by
  have ok := owns.consistent
  have holds := owns.holds
  have well := owns.well
  have short : ∀ {order : RowOrder} {row : Row},
    (serializeRowData order row).length ≤ page.dataStart →
      storedText order row = serializeRowData order row := by
    intro order row fits
    have start : page.dataStart ≤ pageSize := Page.dataStart_le
    have size : pageSize = 4096 := rfl
    exact storedText_of_short (by omega)
  cases step with
  | insert faithful onPage fits ran =>
    obtain rfl := Option.some.inj (holds.symm.trans onPage)
    have text := short fits
    obtain ⟨page', inserts, moves⟩ := (insertRow_ends ok holds well (text ▸ fits)).of_ok ran
    exact ⟨page', advances_insert owns faithful text inserts moves⟩
  | insertThrows faithful onPage fits ran =>
    obtain rfl := Option.some.inj (holds.symm.trans onPage)
    have missed := (insertRow_ends ok holds well ((short fits) ▸ fits)).of_error ran
    exact ⟨page, owns.unchanged missed.2.2.2 rfl⟩
  | @delete rid done _ ran =>
    by_cases onPage : rid.pageId = heap.firstPageId
    · obtain ⟨page', deletes, moves⟩ := (deleteRow_ends ok (onPage ▸ holds) well).of_ok ran
      exact ⟨page', advances_delete owns onPage deletes (onPage ▸ moves)⟩
    · obtain ⟨⟨page', moves⟩, -⟩ := (deleteRow_visits ok).of_ok ran
      have same : pool'.content heap.firstPageId = some page := by
        rw [moves.content, Function.update_of_ne (Ne.symm onPage)]
        exact holds
      refine ⟨page, ⟨moves.consistent, same, well, owns.id⟩, ?_, nofun, nofun, fun _ own => ?_⟩
      · have nothing : HeapEvent.change? heap (.deleted rid done) = none :=
          if_neg fun both => onPage both.2
        rw [nothing]
        rfl
      · exact absurd (own rid done rfl) onPage
  | @deleteThrows rid _ _ defined ran =>
    by_cases onPage : rid.pageId = heap.firstPageId
    · have missed := (deleteRow_ends ok (onPage ▸ holds) well).of_error ran
      exact ⟨page, owns.unchanged missed.2.2.2 rfl⟩
    · rcases (deleteRow_visits ok).of_error ran with undefined | moves
      · exact absurd (defined undefined) onPage
      · exact ⟨page, owns.unchanged moves rfl⟩
  | others ok' same =>
    exact ⟨page, ⟨ok', same.trans holds, well, owns.id⟩, rfl, nofun, nofun,
      fun never => absurd rfl never⟩

theorem Advances.recorded {page' : Page} (advances : Advances heap pool pool' page page' event)
    (recorded : Recorded heap events pool page) :
    Recorded heap (events ++ [event]) pool' page' where
  toOwns := advances.owns
  slots := by
    rw [advances.slots, recorded.slots, changes_append, after_append]
    unfold changes
    cases change : event.change? heap with
    | none => rw [List.filterMap_cons_none change]; rfl
    | some change' => rw [List.filterMap_cons_some change]; rfl

/-- **Run lemma.** -/
theorem HeapRun.recorded (run : HeapRun heap events pool) :
    ∃ page, Recorded heap events pool page := by
  induction run with
  | create ok ran =>
    obtain ⟨page, owns, empty⟩ := owns_create ok ran
    exact ⟨page, owns, empty⟩
  | step run step ih =>
    obtain ⟨page, recorded⟩ := ih
    obtain ⟨page', advances⟩ := step.advances recorded.toOwns
    exact ⟨page', advances.recorded recorded⟩

/-! ### The ids -/

/-- **The id of an inserted row** is the number of slots before it. -/
theorem HeapRun.numbered (run : HeapRun heap events pool) :
    ∀ {front back : List HeapEvent} {row : Row} {rid : RowId},
    events = front ++ .inserted row rid :: back → rid.valid = true →
    rid = { pageId := heap.firstPageId, slotIndex := (after [] (heap.changes front)).length } := by
  induction run with
  | create ok ran =>
    intro front back row rid split
    exact absurd split.symm (List.append_ne_nil_of_right_ne_nil _ nofun)
  | @step events event pool pool' run step ih =>
    intro front back row rid split valid
    rcases List.eq_nil_or_concat back with rfl | ⟨back, last, rfl⟩
    · obtain ⟨rfl, same⟩ := List.append_inj' split rfl
      obtain rfl := List.head_eq_of_cons_eq same
      obtain ⟨page, recorded⟩ := run.recorded
      obtain ⟨page', advances⟩ := step.advances recorded.toOwns
      rw [advances.issued row rid rfl valid, recorded.slots]
    · rw [List.concat_eq_append, ← List.cons_append, ← List.append_assoc] at split
      exact ih (List.append_inj' split rfl).1 valid

/-- **No id is given twice.** -/
theorem HeapRun.fresh (run : HeapRun heap events pool) {front back : List HeapEvent}
    (split : events = front ++ .inserted row rid :: back) (valid : rid.valid = true) (row' : Row) :
    .inserted row' rid ∉ front := by
  intro member
  obtain ⟨before, between, rfl⟩ := List.append_of_mem member
  have later := run.numbered split valid
  rw [List.append_assoc, List.cons_append] at split
  have earlier := run.numbered split valid
  have change : HeapEvent.change? heap (.inserted row' rid) = some (.add row') := if_pos valid
  have changed : heap.changes (before ++ .inserted row' rid :: between) =
      heap.changes before ++ .add row' :: heap.changes between := by
    rw [changes_append]
    unfold changes
    rw [List.filterMap_cons_some change]
  have less := length_after_lt [] (heap.changes before) (heap.changes between) row'
  rw [← changed] at less
  exact less.ne (congrArg RowId.slotIndex (earlier.symm.trans later))

/-- **What is in the slot of an inserted row.** -/
theorem HeapRun.rowAt (run : HeapRun heap events pool) (recorded : Recorded heap events pool page)
    {front back : List HeapEvent} (split : events = front ++ .inserted row rid :: back)
    (valid : rid.valid = true) :
    page.rowAt rid.slotIndex = if .deleted rid true ∈ back then none else some row := by
  have change : HeapEvent.change? heap (.inserted row rid) = some (.add row) := if_pos valid
  have changed : heap.changes events = heap.changes front ++ .add row :: heap.changes back := by
    rw [split, changes_append]
    unfold changes
    rw [List.filterMap_cons_some change]
  rw [← Page.read_slots, recorded.slots, changed, run.numbered split valid, read_after_add]
  simp only [remove_mem_changes]

/-! ### The other rows -/

/-- The event is no operation on the row: its id is another, and one of the two is an id of the
heap. -/
def HeapEvent.LeavesAlone (heap : TableHeap) (other : RowId) : HeapEvent → Prop
  | .inserted _ rid => other ≠ rid
  | .deleted rid _ =>
    other ≠ rid ∧ (other.pageId = heap.firstPageId ∨ rid.pageId = heap.firstPageId)
  | .threw => True
  | .others => other.pageId = heap.firstPageId

theorem Advances.rowAt {page' : Page} (advances : Advances heap pool pool' page page' event)
    (onPage : other.pageId = heap.firstPageId) (apart : event.LeavesAlone heap other) :
    page'.rowAt other.slotIndex = page.rowAt other.slotIndex := by
  rw [← Page.read_slots, ← Page.read_slots, advances.slots]
  cases change : event.change? heap with
  | none => rfl
  | some change' =>
    refine read_apply_of_ne ?_ ?_
    · rintro i rfl same
      obtain rfl := change?_eq_remove.mp change
      refine apart.1 ?_
      rw [same, ← onPage]
    · rintro row rfl same
      obtain ⟨rid, rfl, valid⟩ := change?_eq_add.mp change
      refine apart ?_
      rw [advances.issued row rid rfl valid, ← onPage, ← same]

/-- **An operation on another row changes nothing for `getRow`.** -/
theorem Advances.getRow {page' : Page} (advances : Advances heap pool pool' page page' event)
    (owns : Owns heap pool page) (apart : event.LeavesAlone heap other) {found : Option Row}
    {read : BufferPool}
    (ran : getRow other pool = .ok found read) :
    Ends (getRow other) pool' (fun found' _ => found' = found) (Refused pool') := by
  obtain ⟨ok, holds, well, -⟩ := owns
  obtain ⟨ok', holds', well', -⟩ := advances.owns
  by_cases onPage : other.pageId = heap.firstPageId
  · have before := ((getRow_ends ok (onPage ▸ holds) well).of_ok ran).1
    refine (getRow_ends ok' (onPage ▸ holds') well').mono ?_
      fun _ _ missed => missed.2
    rintro found' _ ⟨after, -⟩
    rw [before, after]
    exact advances.rowAt onPage apart
  · have same : pool'.content other.pageId = pool.content other.pageId := by
      refine advances.elsewhere ?_ ?_ other.pageId onPage
      · rintro rfl
        exact onPage apart
      · rintro rid done rfl
        exact apart.2.resolve_left onPage
    cases there : pool.content other.pageId with
    | none =>
      have missing : Ends (TableHeap.getRow other) pool (fun _ _ => False) (fun _ _ => True) := by
        unfold TableHeap.getRow
        refine Ends.bind ((fetchPage_ends ok other.pageId).mono (fun _ _ done => done)
          fun _ _ _ => trivial) ?_
        rintro fetched _ ⟨holds, -⟩
        exact nomatch there.symm.trans holds
      exact (missing.of_ok ran).elim
    | some foreign =>
      have reads := ((getRow_reads ok there).of_ok ran).1
      refine (getRow_reads ok' (same.trans there)).mono ?_ ?_
      · rintro found' _ ⟨reads', -⟩
        exact Except.ok.inj (reads'.symm.trans reads)
      · rintro fault _ (missed | fails)
        · exact missed.2
        · exact nomatch fails.symm.trans reads

/-- **A heap keeps its rows.** After every run: an id that `insertRow` returned was never returned
before, and `getRow` finds the row until the id is deleted and nothing ever after; it throws only
when all frames are pinned by others. The next step changes nothing for the other ids, and a row
that finds the page full changes no byte. -/
theorem heapRun_keeps_rows (run : HeapRun heap events pool) :
    (∀ front row rid back, events = front ++ .inserted row rid :: back → rid.valid = true →
      (∀ row', .inserted row' rid ∉ front) ∧
      Ends (getRow rid) pool
        (fun found pool' => found = (if .deleted rid true ∈ back then none else some row) ∧
          Moves pool pool' pool.content)
        (Refused pool)) ∧
    ∀ event pool', HeapStep heap pool event pool' →
      (∀ other, event.LeavesAlone heap other → ∀ found read, getRow other pool = .ok found read →
        Ends (getRow other) pool' (fun found' _ => found' = found) (Refused pool')) ∧
      (∀ row rid, event = .inserted row rid → rid.valid = false →
        pool'.content = pool.content) := by
  obtain ⟨page, recorded⟩ := run.recorded
  have ok := recorded.consistent
  constructor
  · intro front row rid back split valid
    refine ⟨run.fresh split valid, ?_⟩
    have onPage : rid.pageId = heap.firstPageId := by rw [run.numbered split valid]
    refine (getRow_ends ok (onPage ▸ recorded.holds) recorded.well).mono ?_ fun _ _ missed =>
      missed.2
    rintro found pool' ⟨same, moves⟩
    exact ⟨same.trans (run.rowAt recorded split valid), moves⟩
  · intro event pool' step
    obtain ⟨page', advances⟩ := step.advances recorded.toOwns
    refine ⟨fun other apart found read ran => ?_, advances.full⟩
    exact advances.getRow recorded.toOwns apart ran

theorem heapRun_keeps_rows_deleted :
    ∃ heap pool, HeapRun heap [.inserted (longRow 1) ⟨0, 0⟩, .deleted ⟨0, 0⟩ true] pool ∧
      Ends (getRow ⟨0, 0⟩) pool (fun found pool' => found = none ∧ Moves pool pool' pool.content)
        (Refused pool) := by
  obtain ⟨heap, start, pool, inserted, page, -, ok, created, isFirst, owns, ran, ready,
      owns', grown⟩ :=
    exists_oneRow
  have live : page.Live 0 := Page.recordCount_new 0 ▸ grown.live
  obtain ⟨done, deleted, ran', _, deletes, -⟩ := ((@deleteRow_ends inserted page ⟨0, 0⟩
    owns'.consistent (isFirst ▸ owns'.holds) owns'.well).mono (fun _ _ done => done)
    fun _ _ => ready.not_missed).exists_ok
  obtain ⟨rfl, -, -⟩ := deletes.resolve_right fun kept => kept.2.1 live
  have run : HeapRun heap [.inserted (longRow 1) ⟨0, 0⟩, .deleted ⟨0, 0⟩ true] deleted :=
    .step (.step (.create ok created)
      (.insert (by decide +kernel) owns.holds (by decide +kernel) ran))
      (.delete ran')
  exact ⟨heap, deleted, run,
    ((heapRun_keeps_rows run).1 [] (longRow 1) ⟨0, 0⟩ [.deleted ⟨0, 0⟩ true] rfl rfl).2⟩

end TableHeap

end MyDb
