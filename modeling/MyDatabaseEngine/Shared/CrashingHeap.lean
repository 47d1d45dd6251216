/-
**A heap whose process may stop.**

A run is what happens to a heap in a pool that other clients use too: its own `insertRow` and
`deleteRow`, what the others do to other pages, flushes, and crashes, after which the file is opened
again (`HeapCrashRun`). The heap's page is one page of the memory behind the pool, and each call
changes it at most once; so a crash brings the page back as it was after some of the changes since
it was last flushed, and never in between (`HeapCrashRun.journaled`).

Hence `heapCrashRun_keeps_flushed`: a row that is inserted and then flushed no crash loses, a row
that is deleted and then flushed no crash brings back, and `getRow` finds no row that was never
inserted.
-/

import MyDatabaseEngine.Heap.HeapJournal
import MyDatabaseEngine.Shared.Clients

set_option linter.unusedSectionVars false

namespace MyDb

open Outcome SlotArray BufferPool PoolSystem

namespace TableHeap

variable {C : Type} [DecidableEq C]

/-! ### Calls -/

/-- **The call was the client's**, and changed at most one page, at most once. -/
def ActsOnce (client : C) (s : PoolSystem C) (pool : BufferPool) : Prop :=
  ActsAs client s [] pool ∨ ∃ pageId page, ActsAs client s [.write pageId (some page)] pool

/-- The call threw with nothing changed; behind undefined behaviour nothing is said. -/
def ThrowsIdle (client : C) (s : PoolSystem C) (fault : Fault) (pool : BufferPool) : Prop :=
  fault = .undefinedBehaviour ∨ ActsAs client s [] pool

/-- **What the heap sees of an event** of the pool. -/
def seen (heap : TableHeap) : PoolEvent C → CrashEvent
  | .flushAll _ => .flushed
  | .flushPage pageId => if pageId = heap.firstPageId then .flushed else .heap .others
  | _ => .heap .others

/-- The event is no change of the heap's page. -/
def Spares (heap : TableHeap) : PoolEvent C → Prop
  | .change _ pageId _ => pageId ≠ heap.firstPageId
  | _ => True

/-- **A run of a heap** from `create` on, with no file I/O failure. Before that, anything may have
happened to the pool and its file. -/
inductive HeapCrashRun (heap : TableHeap) : List CrashEvent → PoolSystem C → Prop
  | create {poolSize maxPages : Nat} {bytes : Str} {maxPages_lt : maxPages < 2 ^ 32}
      {ops : List (WriteBack.Op Nat (Option Page))} {s : PoolSystem C} {client : C}
        {pool : BufferPool} :
      bytes.length / pageSize ≤ maxPages →
      CrashRun (start C poolSize (DiskManager.openFile bytes maxPages maxPages_lt)) ops s →
      s.Idle client → create s.pool = .ok heap pool →
      HeapCrashRun heap [] (s.after pool)
  /-- `insertRow` or `deleteRow`, by a client that is not in the middle of changing a page. -/
  | call {events : List CrashEvent} {s : PoolSystem C} {client : C} {event : HeapEvent}
    {pool : BufferPool} :
      HeapCrashRun heap events s → s.Idle client → event ≠ .others →
        HeapStep heap s.pool event pool →
      HeapCrashRun heap (events ++ [.heap event]) (s.after pool)
  /-- Anything others do. -/
  | other {events : List CrashEvent} {s : PoolSystem C} (event : PoolEvent C) :
      HeapCrashRun heap events s → heap.Spares event → s.Allowed event →
      (s.step event).pool.disk.file.fail = false →
      HeapCrashRun heap (events ++ [heap.seen event]) (s.step event)
  /-- The process stops, and starts again on the file that is left. -/
  | crash {events : List CrashEvent} {s : PoolSystem C} (poolSize : Nat) :
      HeapCrashRun heap events s → HeapCrashRun heap (events ++ [.crashed]) (s.restart poolSize)

variable {heap : TableHeap} {maxPages : Nat} {s : PoolSystem C} {client : C}

section Calls

variable (agrees : s.Agrees maxPages) (idle : s.Idle client)

include agrees idle

theorem insertRow_once (order : RowOrder) (padding : Byte) (row : Row) :
    Ends (heap.insertRow order padding row) s.pool (fun _ => ActsOnce client s)
      (ThrowsIdle client s) := by
  refine ends_visit agrees idle (fun page pinned _ _ changed => ?_) fun _ _ acts => .inr acts
  refine TableHeap.noWorse_insertIntoPage.ends_bind (.inl rfl) fun inserted => ?_
  exact .inr ⟨_, _, changed inserted.2⟩

theorem deleteRow_once (rid : RowId) :
    Ends (deleteRow rid) s.pool (fun _ => ActsOnce client s) (ThrowsIdle client s) := by
  refine ends_visit agrees idle (fun page pinned _ released changed => ?_) fun _ _ acts => .inr acts
  dsimp only
  split
  · exact .inl released
  · refine Page.noWorse_slotEntry.ends_bind (.inl rfl) fun entry => ?_
    split
    · exact .inl released
    · refine Page.noWorse_setSlotEntry.ends_bind (.inl rfl) fun page' => ?_
      exact .inr ⟨_, _, changed page'⟩

end Calls

/-! ### The heap's page -/

/-- **The page after these changes.** -/
def Holds (heap : TableHeap) (changes : List (Change Row)) (content : Option Page) : Prop :=
  ∃ page, content = some page ∧ page.WellSlotted ∧ page.id = heap.firstPageId ∧
    page.slots = after [] changes

/-- **The heap is as its journal says**: the page now, and whatever it may come back as. -/
structure Journaled (heap : TableHeap) (s : PoolSystem C) (m : WriteBack Nat (Option Page))
    (maxPages : Nat) (journal : Journal) : Prop extends s.Reflects maxPages m where
  free : heap.firstPageId ∈ s.unedited
  journalSound : journal.Sound
  holds : heap.Holds journal.changes (m.now heap.firstPageId)
  comesBack : ∀ back ∈ m.since heap.firstPageId, ∃ changes ∈ journal.since (),
    heap.Holds changes back

section Journaled

variable {m m' : WriteBack Nat (Option Page)} {journal journal' : Journal} {s' : PoolSystem C}
  {pool pool' : BufferPool} {event : HeapEvent}

theorem Journaled.owns (journaled : heap.Journaled s m maxPages journal) :
    ∃ page, Owns heap s.pool page ∧ page.slots = after [] journal.changes := by
  obtain ⟨page, now, well, id, slots⟩ := journaled.holds
  have holds : s.pool.content heap.firstPageId = some page := by
    rw [journaled.content, ← journaled.now]
    exact now
  exact ⟨page, ⟨journaled.consistent, holds, well, id⟩, slots⟩

theorem Owns.holds_changes {page : Page} {changes : List (Change Row)} (owns : Owns heap pool page)
    (slots : page.slots = after [] changes) : heap.Holds changes (pool.content heap.firstPageId) :=
  ⟨page, owns.holds, owns.well, owns.id, slots⟩

/-- The page that is pinned is a page of the file. -/
theorem lt_of_edited (agrees : s.Agrees maxPages) {pageId : Nat}
    (edited : (client, pageId) ∈ s.edited) :
    pageId < s.pool.disk.pageCount := by
  have pinned : 0 < s.pool.pinned pageId := by
    rw [agrees.pinned, Multiset.count_pos]
    exact Multiset.mem_map_of_mem Prod.snd (agrees.edited _ edited)
  cases found : s.pool.pages.lookup pageId with
  | none =>
    unfold BufferPool.pinned at pinned
    rw [found] at pinned
    exact absurd pinned (lt_irrefl 0)
  | some frame => exact agrees.consistent.onDisk pageId (Finmap.mem_of_lookup_eq_some found)

/-- **A new heap** is in the file as soon as it is made. -/
theorem create_onFile (ok : pool.Consistent) (ran : create pool = .ok heap pool') :
    pool'.disk.page? heap.firstPageId = pool'.content heap.firstPageId := by
  have writes : Ends create pool
      (fun heap pool' => WritesOnly pool pool'
        (Function.update pool.content heap.firstPageId (some (Page.new heap.firstPageId))))
      (fun _ _ => True) := by
    unfold create
    refine Ends.bind (((newPage_writes ok).and (newPage_ends ok)).mono (fun _ _ done => done)
      fun _ _ _ => trivial) ?_
    rintro page pinned ⟨writes, isNew, named, -⟩
    have same : Page.new page.id = page := by rw [named, isNew]
    simp only [ends_modify_bind, ends_pure]
    unfold WritesOnly
    rw [disk_unpin, same]
    exact writes
  obtain ⟨isNext, moves⟩ := (create_ends ok).of_ok ran
  have holds : pool'.content heap.firstPageId = some (Page.new heap.firstPageId) := by
    rw [moves.content]
    exact Function.update_self ..
  rcases writes.of_ok ran heap.firstPageId with stays | written
  · have inFile : (pool'.disk.page? heap.firstPageId).isSome :=
      moves.consistent.usable.page?_isSome.mpr (lt_pageCount moves.consistent holds)
    rw [stays, isNext] at inFile
    exact absurd (ok.usable.page?_isSome.mp inFile) (lt_irrefl _)
  · rw [written, moves.content]

theorem journaled_create (agrees : s.Agrees maxPages) (idle : s.Idle client)
    (ran : create s.pool = .ok heap pool) :
    ∃ m, heap.Journaled (s.after pool) m maxPages .empty := by
  obtain ⟨_, acts⟩ := (keeps_storeCall agrees idle .createHeap s.pool ⟨_, agrees.actsAs⟩).of_ok ran
  have agrees' := acts.agrees agrees
  obtain ⟨page, owns, slots⟩ := owns_create agrees.consistent ran
  have holds : heap.Holds [] (pool.content heap.firstPageId) := owns.holds_changes slots
  -- the memory that may come back with what the pool has and what the file has
  let m : WriteBack Nat (Option Page) :=
    ⟨pool.content, fun pageId => {pool.content pageId, pool.disk.page? pageId}⟩
  have reflects : (s.after pool).Reflects maxPages m :=
    ⟨agrees', fun _ => .inl rfl, rfl, fun _ => .inr rfl⟩
  refine ⟨m, reflects, fun other edited => ?_, WriteBack.sound_idle _, holds, fun back member => ?_⟩
  · have there := lt_of_edited agrees edited
    rw [((create_ends agrees.consistent).of_ok ran).1] at there
    exact lt_irrefl _ there
  · refine ⟨[], rfl, ?_⟩
    rcases member with rfl | rfl
    · exact holds
    · rw [create_onFile agrees.consistent ran]
      exact holds

/-- **Step lemma**: a call of the heap. -/
theorem Journaled.call (journaled : heap.Journaled s m maxPages journal)
    (step : HeapStep heap s.pool event pool) (acts : ActsOnce client s pool) :
    ∃ m' journal', JournalStep heap journal (.heap event) journal' ∧
      heap.Journaled (s.after pool) m' maxPages journal' := by
  obtain ⟨page, owns, slots⟩ := journaled.owns
  obtain ⟨page', advances⟩ := step.advances owns
  obtain ⟨m', reflects, since⟩ : ∃ m', (s.after pool).Reflects maxPages m' ∧
      ∀ back ∈ m'.since heap.firstPageId,
        back ∈ m.since heap.firstPageId ∨ back = m'.now heap.firstPageId := by
    rcases acts with acts | ⟨pageId, written, acts⟩
    · obtain ⟨m', run, reflects⟩ := acts.reflects journaled.toReflects
      obtain rfl := run.eq_of_nil
      exact ⟨m', reflects, fun _ => .inl⟩
    · obtain ⟨m', run, reflects⟩ := acts.reflects journaled.toReflects
      cases run.step_of_singleton with
      | write => exact ⟨_, reflects, fun _ => WriteBack.mem_since_write⟩
  have content : m'.now = pool.content := reflects.now
  cases change : event.change? heap with
  | none =>
    have holds : heap.Holds journal.changes (m'.now heap.firstPageId) := by
      rw [content]
      refine advances.owns.holds_changes ?_
      rw [advances.slots, change, slots]
      rfl
    refine ⟨m', journal, .unchanged change, reflects, journaled.free,
      journaled.journalSound, holds, ?_⟩
    intro back member
    rcases since back member with old | rfl
    · exact journaled.comesBack back old
    · exact ⟨_, journaled.journalSound (), holds⟩
  | some change' =>
    have holds : heap.Holds (journal.changes ++ [change']) (m'.now heap.firstPageId) := by
      rw [content]
      refine advances.owns.holds_changes ?_
      rw [advances.slots, change, slots, after_concat]
      rfl
    have given : ∀ row rid, event = .inserted row rid →
        rid = { pageId := heap.firstPageId, slotIndex := (after [] journal.changes).length } := by
      rintro row rid rfl
      rw [← slots]
      exact advances.issued row rid rfl (Option.ite_none_right_eq_some.mp change).1
    have next : JournalStep heap journal (.heap event) _ := .changed change given
    refine ⟨m', _, next, reflects, journaled.free, ?_, changes_write _ _ ▸ holds, ?_⟩
    · exact (@WriteBack.Step.write _ _ _ addsChange _ _ _ ⟨change', rfl⟩).sound
        journaled.journalSound
    · intro back member
      rcases since back member with old | rfl
      · obtain ⟨changes, member, holds⟩ := journaled.comesBack back old
        exact ⟨changes, Set.mem_insert_of_mem _ member, holds⟩
      · exact ⟨_, Set.mem_insert _ _, holds⟩

/-- A page that nobody edits and nobody changes is not edited. -/
theorem unedited_step {event : PoolEvent C} (free : heap.firstPageId ∈ s.unedited)
    (spares : heap.Spares event) :
    heap.firstPageId ∈ (s.step event).unedited := by
  intro other edited
  cases event with
  | fetchPage client pageId =>
    cases ran : s.pool.fetchPage pageId with
    | ok page pool => exact free other (by rwa [step_fetchPage_ok ran] at edited)
    | error fault pool => exact free other (by rwa [step_fetchPage_error ran] at edited)
  | newPage client =>
    cases ran : s.pool.newPage with
    | ok page pool => exact free other (by rwa [step_newPage_ok ran] at edited)
    | error fault pool => exact free other (by rwa [step_newPage_error ran] at edited)
  | change client pageId page =>
    rcases Finset.mem_insert.mp edited with same | edited
    · exact spares (Prod.mk.inj same).2.symm
    · exact free other edited
  | unpin client pageId isDirty => exact free other (Finset.mem_of_mem_erase edited)
  | flushPage pageId =>
    have same : (s.step (.flushPage pageId)).edited = s.edited := by
      cases ran : s.pool.flushPage pageId <;> simp only [step, ran]
    exact free other (same ▸ edited)
  | flushAll order =>
    have same : (s.step (.flushAll order)).edited = s.edited := by
      cases ran : s.pool.flushAll order <;> simp only [step, ran]
    exact free other (same ▸ edited)

/-- The page is as before. -/
theorem Journaled.of_spared (journaled : heap.Journaled s m maxPages journal)
    (reflects : s'.Reflects maxPages m') (free : heap.firstPageId ∈ s'.unedited)
    (now : m'.now heap.firstPageId = m.now heap.firstPageId)
    (since : m'.since heap.firstPageId ⊆ m.since heap.firstPageId) :
    heap.Journaled s' m' maxPages journal :=
  ⟨reflects, free, journaled.journalSound, now ▸ journaled.holds,
    fun back member => journaled.comesBack back (since member)⟩

/-- The page is flushed. -/
theorem Journaled.of_settled (journaled : heap.Journaled s m maxPages journal)
    {cells : Set Nat} (reflects : s'.Reflects maxPages (m.settle cells))
    (free : heap.firstPageId ∈ s'.unedited) (among : heap.firstPageId ∈ cells) :
    heap.Journaled s' (m.settle cells) maxPages (journal.settle Set.univ) := by
  refine ⟨reflects, free, fun _ => .inl rfl, journaled.holds, ?_⟩
  rintro back (rfl | ⟨apart, -⟩)
  · exact ⟨journal.changes, .inl rfl, journaled.holds⟩
  · exact absurd among apart

/-- **Step lemma**: what others do. -/
theorem Journaled.other (journaled : heap.Journaled s m maxPages journal) {event : PoolEvent C}
    (spares : heap.Spares event) (allowed : s.Allowed event)
    (noFailure : (s.step event).pool.disk.file.fail = false) :
    ∃ m' journal', JournalStep heap journal (heap.seen event) journal' ∧
      heap.Journaled (s.step event) m' maxPages journal' := by
  obtain ⟨m', run, reflects⟩ := journaled.toReflects.step allowed noFailure
  have free := unedited_step journaled.free spares
  cases event with
  | fetchPage client pageId =>
    obtain rfl := run.eq_of_nil
    exact ⟨_, _, .unchanged rfl, journaled.of_spared reflects free rfl subset_rfl⟩
  | unpin client pageId isDirty =>
    obtain rfl := run.eq_of_nil
    exact ⟨_, _, .unchanged rfl, journaled.of_spared reflects free rfl subset_rfl⟩
  | newPage client =>
    unfold PoolSystem.effect at run
    cases ran : s.pool.newPage with
    | error fault pool =>
      rw [ran] at run
      obtain rfl := run.eq_of_nil
      exact ⟨_, _, .unchanged rfl, journaled.of_spared reflects free rfl subset_rfl⟩
    | ok page pool =>
      rw [ran] at run
      obtain ⟨page', owns, -⟩ := journaled.owns
      have there := lt_pageCount journaled.consistent owns.holds
      rw [← ((newPage_ends journaled.consistent).of_ok ran).2.1] at there
      cases run.step_of_singleton with
      | write =>
        exact ⟨_, _, .unchanged rfl, journaled.of_spared reflects free
          (WriteBack.now_write_of_ne there.ne) (WriteBack.since_write_of_ne there.ne).subset⟩
  | change client pageId page =>
    cases run.step_of_singleton with
    | write =>
      exact ⟨_, _, .unchanged rfl, journaled.of_spared reflects free
        (WriteBack.now_write_of_ne (Ne.symm spares))
          (WriteBack.since_write_of_ne (Ne.symm spares)).subset⟩
  | flushPage pageId =>
    cases run.step_of_singleton with
    | settle =>
      by_cases same : pageId = heap.firstPageId
      · have seen : heap.seen (.flushPage pageId : PoolEvent C) = .flushed := if_pos same
        rw [seen]
        exact ⟨_, _, .flushed, journaled.of_settled reflects free ⟨same.symm, journaled.free⟩⟩
      · have seen : heap.seen (.flushPage pageId : PoolEvent C) = .heap .others := if_neg same
        rw [seen]
        refine ⟨_, _, .unchanged rfl, journaled.of_spared reflects free rfl ?_⟩
        rintro back (rfl | ⟨-, member⟩)
        · exact journaled.sound _
        · exact member
  | flushAll order =>
    cases run.step_of_singleton with
    | settle => exact ⟨_, _, .flushed, journaled.of_settled reflects free journaled.free⟩

/-- **Step lemma**: the process stops. -/
theorem Journaled.restart (journaled : heap.Journaled s m maxPages journal) (poolSize : Nat) :
    ∃ m' journal', JournalStep heap journal .crashed journal' ∧
      heap.Journaled (s.restart poolSize) m' maxPages journal' := by
  obtain ⟨changes, member, holds⟩ := journaled.comesBack _ (journaled.onFile heap.firstPageId)
  have step : WriteBack.Step addsChange journal .crash (.idle fun _ => changes) :=
    .crash fun _ => member
  refine ⟨_, _, .crashed step, (journaled.toReflects.restart poolSize).2, fun _ => nofun,
    ?_, holds, ?_⟩
  · exact WriteBack.sound_idle _
  · intro back same
    rw [Set.mem_singleton_iff.mp same]
    exact ⟨changes, rfl, holds⟩

/-- The heap's calls change one page at most once. -/
theorem once_of_heapStep (agrees : s.Agrees maxPages) (idle : s.Idle client) {page : Page}
    (owns : Owns heap s.pool page) (notOthers : event ≠ .others)
    (step : HeapStep heap s.pool event pool) :
    ActsOnce client s pool := by
  have ok := owns.consistent
  have notUndefined : ∀ {fault : Fault} {pool' : BufferPool},
    Missed heap.firstPageId s.pool fault pool' →
      fault ≠ .undefinedBehaviour := by
    rintro fault pool' ⟨-, rfl, -⟩
    exact nofun
  cases step with
  | @insert order padding row _ _ _ _ _ _ ran =>
    exact (insertRow_once agrees idle order padding row).of_ok ran
  | @insertThrows order padding row page' fault _ faithful onPage fits ran =>
    obtain rfl := Option.some.inj (owns.holds.symm.trans onPage)
    have stored : storedText order row = serializeRowData order row := by
      have start : page.dataStart ≤ pageSize := Page.dataStart_le
      have size : pageSize = 4096 := rfl
      exact storedText_of_short (by omega)
    have missed := (insertRow_ends ok owns.holds owns.well (stored ▸ fits)).of_error ran
    exact .inl (((insertRow_once agrees idle order padding row).of_error ran).resolve_left
      (notUndefined missed))
  | @delete rid _ _ ran => exact (deleteRow_once agrees idle rid).of_ok ran
  | @deleteThrows rid fault _ defined ran =>
    refine .inl (((deleteRow_once agrees idle rid).of_error ran).resolve_left fun undefined => ?_)
    have onPage := defined undefined
    have missed := (deleteRow_ends ok (onPage ▸ owns.holds) owns.well).of_error ran
    exact notUndefined (onPage ▸ missed) undefined
  | others => exact absurd rfl notOthers

end Journaled

/-- **Run lemma.** -/
theorem HeapCrashRun.journaled {events : List CrashEvent} (run : HeapCrashRun heap events s) :
    ∃ m maxPages journal, JournalRun heap .empty events journal ∧
      heap.Journaled s m maxPages journal := by
  induction run with
  | create fits before idle ran =>
    obtain ⟨_, -, reflects⟩ := before.reflects (reflects_start (DiskManager.usable_openFile _ fits))
    obtain ⟨m, journaled⟩ := journaled_create reflects.toAgrees idle ran
    exact ⟨m, _, _, .nil, journaled⟩
  | call _ idle notOthers step ih =>
    obtain ⟨m, maxPages, journal, ran, journaled⟩ := ih
    obtain ⟨page, owns, -⟩ := journaled.owns
    obtain ⟨m', journal', steps, journaled'⟩ :=
      journaled.call step (once_of_heapStep journaled.toAgrees idle owns notOthers step)
    exact ⟨m', maxPages, journal', ran.concat steps, journaled'⟩
  | other event _ spares allowed noFailure ih =>
    obtain ⟨m, maxPages, journal, ran, journaled⟩ := ih
    obtain ⟨m', journal', steps, journaled'⟩ := journaled.other spares allowed noFailure
    exact ⟨m', maxPages, journal', ran.concat steps, journaled'⟩
  | crash poolSize _ ih =>
    obtain ⟨m, maxPages, journal, ran, journaled⟩ := ih
    obtain ⟨m', journal', steps, journaled'⟩ := journaled.restart poolSize
    exact ⟨m', maxPages, journal', ran.concat steps, journaled'⟩

/-- **What is flushed survives.** A heap is used in a pool that others use too, and the process may
stop at any time. A row that is inserted, and flushed before the process next stops, `getRow` finds
after anything that follows, until the id is deleted; if the id was deleted before that flush,
`getRow` never finds anything there again. And what `getRow` finds on the heap's page was inserted
under that id. -/
theorem heapCrashRun_keeps_flushed {events : List CrashEvent} (run : HeapCrashRun heap events s) :
    (∀ first row rid middle back,
      events = first ++ .heap (.inserted row rid) :: middle ++ .flushed :: back → rid.valid = true →
      .crashed ∉ middle →
      (.heap (.deleted rid true) ∉ middle ++ back →
        Ends (getRow rid) s.pool
          (fun found pool' => found = some row ∧ Moves s.pool pool' s.pool.content)
            (Refused s.pool)) ∧
      (.heap (.deleted rid true) ∈ middle →
        Ends (getRow rid) s.pool
          (fun found pool' => found = none ∧ Moves s.pool pool' s.pool.content) (Refused s.pool))) ∧
    ∀ rid, rid.pageId = heap.firstPageId →
      Ends (getRow rid) s.pool
        (fun found pool' => (∀ row, found = some row → .heap (.inserted row rid) ∈ events) ∧
          Moves s.pool pool' s.pool.content)
        (Refused s.pool) := by
  obtain ⟨m, maxPages, journal, ran, journaled⟩ := run.journaled
  obtain ⟨page, owns, slots⟩ := journaled.owns
  have finds : ∀ rid : RowId, rid.pageId = heap.firstPageId →
      Ends (getRow rid) s.pool
        (fun found pool' => found = read (after [] journal.changes) rid.slotIndex ∧
          Moves s.pool pool' s.pool.content)
        (Refused s.pool) := by
    intro rid onPage
    refine (getRow_ends owns.consistent (onPage ▸ owns.holds) owns.well).mono ?_ fun _ _ missed =>
      missed.2
    rintro found pool' ⟨same, moves⟩
    rw [← slots, Page.read_slots]
    exact ⟨same, moves⟩
  constructor
  · intro first row rid middle back split valid noCrash
    obtain ⟨onPage, kept, gone⟩ := ran.read_flushed split valid noCrash
    refine ⟨fun undeleted => (finds rid onPage).mono ?_ fun _ _ refused => refused,
      fun deleted => (finds rid onPage).mono ?_ fun _ _ refused => refused⟩
    · rintro found pool' ⟨rfl, moves⟩
      exact ⟨kept undeleted, moves⟩
    · rintro found pool' ⟨rfl, moves⟩
      exact ⟨gone deleted, moves⟩
  · intro rid onPage
    refine (finds rid onPage).mono ?_ fun _ _ refused => refused
    rintro found pool' ⟨rfl, moves⟩
    refine ⟨fun row found => ?_, moves⟩
    have none : AllInserted heap [] [] := fun i row found => nomatch found
    have inserted :=
      (ran.allInserted ⟨none, fun _ same => Set.mem_singleton_iff.mp same ▸ none⟩).now
    rw [show rid = { pageId := heap.firstPageId, slotIndex := rid.slotIndex } from onPage ▸ rfl]
    exact inserted rid.slotIndex row found

/-- A row is inserted, the pages are flushed, and the process stops. -/
theorem heapCrashRun_keeps_flushed_restarted :
    ∃ (heap : TableHeap) (s : PoolSystem Nat),
      HeapCrashRun heap [.heap (.inserted (longRow 1) ⟨0, 0⟩), .flushed, .crashed] s ∧
        Ends (getRow ⟨0, 0⟩) s.pool
          (fun found pool' => found = some (longRow 1) ∧ Moves s.pool pool' s.pool.content)
          (Refused s.pool) := by
  obtain ⟨heap, first, pool, pool', page, isFirst, -, created, -, owns, ran, ready, -⟩ :=
    exists_oneRow
  obtain ⟨s, isStart⟩ : ∃ s, s = start Nat 1 (DiskManager.openFile [] 8 (by decide)) := ⟨_, rfl⟩
  have starts : CrashRun (start Nat 1 (DiskManager.openFile [] 8 (by decide))) [] s :=
    isStart ▸ .nil
  have idle : s.Idle 0 := by
    rw [isStart]
    exact fun _ => nofun
  have samePool : first = s.pool := by
    rw [isStart]
    exact isFirst
  rw [samePool] at created
  have made : HeapCrashRun heap [] (s.after pool) := .create (by decide) starts idle created
  have inserts : HeapStep heap (s.after pool).pool (.inserted (longRow 1) ⟨0, 0⟩) pool' :=
    .insert (by decide +kernel) owns.holds (by decide +kernel) ran
  have inserted := HeapCrashRun.call made idle (by decide) inserts
  obtain ⟨_, flushed, flushes, becomes, -⟩ := (flushAll_ends ready.consistent default).exists_ok
  have noFailure : (((s.after pool).after pool').step (.flushAll default)).pool.disk.file.fail =
      false := by
    rw [step_flushAll_ok flushes]
    exact FileStream.fail_of_good becomes.consistent.usable.good
  have run := (inserted.other (.flushAll default) trivial trivial noFailure).crash 1
  refine ⟨heap, _, run, ?_⟩
  exact ((heapCrashRun_keeps_flushed run).1 [] (longRow 1) ⟨0, 0⟩ [] [.crashed] rfl rfl nofun).1
    fun member => nomatch List.mem_singleton.mp member

end TableHeap

end MyDb
