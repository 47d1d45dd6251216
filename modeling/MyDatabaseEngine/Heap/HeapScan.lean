/-
**The scan of a heap** (`src/table_heap.cpp`, `scan`).

The scan visits all page ids from the heap's page up to `INVALID_PAGE_ID`, whatever they hold, so it
does not end at the heap's page nor at the end of the file. `scan_yields_iff` says when it yields
the rows of the heap: the file has all the pages there can be, a frame is to be had for each, and on
the pages behind the heap's no slot is in use.

On its own page the scan lists the rows in use, in the order of their slots (`scanSlots_listing`).
On any later page it reads whatever bytes are there as a slot directory, and adds nothing only if
the page is `Quiet` (`scanPages_found`). Behind the last page of the file `fetchPage` throws, and
the rows found so far are lost (`scan_leaves_file`).
-/

import MyDatabaseEngine.Heap.HeapHistory

namespace MyDb

open Outcome SlotArray

/-- **No slot of the page is in use**, and all of them lie inside. -/
def Page.Quiet (page : Page) : Prop :=
  ∀ i < page.recordCount, ∃ entry, page.slotEntry i = .ok entry ∧ entry.valid = 0

namespace TableHeap

open BufferPool

/-! ### What a scan yields -/

/-- **A row of the heap**: it was inserted under the id, which was not deleted since. -/
def LiveRow (events : List HeapEvent) (rid : RowId) (row : Row) : Prop :=
  ∃ front back, events = front ++ .inserted row rid :: back ∧ rid.valid = true ∧
    .deleted rid true ∉ back

/-- **The rows of the heap**, each once with its id. -/
def Yields (events : List HeapEvent) (found : List (RowId × Row)) : Prop :=
  (found.map Prod.fst).Nodup ∧ ∀ rid row, (rid, row) ∈ found ↔ LiveRow events rid row

/-- What a scan lists of a slot. -/
def listed (pid : Nat) (page : Page) (i : Nat) : Option (RowId × Row) :=
  (page.rowAt i).map fun row => ({ pageId := pid, slotIndex := i }, row)

/-- What a scan lists of a page. -/
def listing (pid : Nat) (page : Page) : List (RowId × Row) :=
  (List.range page.recordCount).filterMap (listed pid page)

variable {heap : TableHeap} {events : List HeapEvent} {pool : BufferPool} {page : Page}
  {pid i count : Nat} {results found : List (RowId × Row)} {rid : RowId} {row : Row}

theorem listed_eq_some : listed pid page i = some (rid, row) ↔
    rid = { pageId := pid, slotIndex := i } ∧ page.rowAt i = some row := by
  unfold listed
  rw [Option.map_eq_some_iff]
  constructor
  · rintro ⟨row', read, same⟩
    obtain ⟨rfl, rfl⟩ := Prod.mk.inj same
    exact ⟨rfl, read⟩
  · rintro ⟨rfl, read⟩
    exact ⟨row, read, rfl⟩

theorem mem_listing : (rid, row) ∈ listing pid page ↔
    rid.pageId = pid ∧ page.rowAt rid.slotIndex = some row := by
  unfold listing
  simp only [List.mem_filterMap, List.mem_range, listed_eq_some]
  constructor
  · rintro ⟨i, -, rfl, read⟩
    exact ⟨rfl, read⟩
  · rintro ⟨rfl, read⟩
    have live : page.Live rid.slotIndex := by
      by_contra dead
      unfold Page.rowAt at read
      rw [if_neg dead] at read
      exact nomatch read
    exact ⟨rid.slotIndex, live.1, rfl, read⟩

theorem nodup_listing (pid : Nat) (page : Page) : ((listing pid page).map Prod.fst).Nodup := by
  unfold listing
  rw [List.map_filterMap]
  refine List.nodup_range.filterMap fun i j rid first second => ?_
  obtain ⟨⟨rid', row⟩, isFirst, same⟩ := Option.map_eq_some_iff.mp (Option.mem_def.mp first)
  obtain ⟨⟨rid'', row'⟩, isSecond, same'⟩ := Option.map_eq_some_iff.mp (Option.mem_def.mp second)
  rw [(listed_eq_some.mp isFirst).1] at same
  rw [(listed_eq_some.mp isSecond).1] at same'
  exact congrArg RowId.slotIndex (same.trans same'.symm)

/-- **What is in a slot of the heap's page** is a row of the heap. -/
theorem HeapRun.rowAt_eq_some_iff (run : HeapRun heap events pool)
    (recorded : Recorded heap events pool page) :
    page.rowAt i = some row ↔
      LiveRow events { pageId := heap.firstPageId, slotIndex := i } row := by
  constructor
  · rw [← Page.read_slots, recorded.slots, read_after_eq_some_iff]
    rintro ⟨front, back, split, slot, kept⟩
    obtain ⟨before, rest, same, isFront, isRest⟩ := List.filterMap_eq_append_iff.mp split
    obtain ⟨quiet, event, after, same', silent, isAdded, isBack⟩ :=
      List.filterMap_eq_cons_iff.mp isRest
    obtain ⟨rid, rfl, valid⟩ := change?_eq_add.mp isAdded
    have whole : events = (before ++ quiet) ++ .inserted row rid :: after := by
      rw [same, same', List.append_assoc]
    have isId := run.numbered whole valid
    have sameFront : heap.changes (before ++ quiet) = front := by
      rw [changes_append]
      unfold changes
      rw [isFront, List.filterMap_eq_nil_iff.mpr silent, List.append_nil]
    rw [sameFront, ← slot] at isId
    subst isId
    refine ⟨before ++ quiet, after, whole, valid, fun deleted => kept ?_⟩
    rw [← isBack]
    exact remove_mem_changes.mpr deleted
  · rintro ⟨front, back, split, valid, kept⟩
    exact (run.rowAt recorded split valid).trans (if_neg kept)

/-- A row of the heap is on its page. -/
theorem HeapRun.pageId_of_live (run : HeapRun heap events pool) (live : LiveRow events rid row) :
    rid.pageId = heap.firstPageId := by
  obtain ⟨front, back, split, valid, -⟩ := live
  rw [run.numbered split valid]

/-- **The listing of the heap's page** is what the scan should yield. -/
theorem HeapRun.yields_listing (run : HeapRun heap events pool)
    (recorded : Recorded heap events pool page) :
    Yields events (listing heap.firstPageId page) := by
  refine ⟨nodup_listing _ page, fun rid row => mem_listing.trans ?_⟩
  constructor
  · rintro ⟨onPage, read⟩
    have live := (run.rowAt_eq_some_iff recorded).mp read
    rwa [← onPage] at live
  · intro live
    have onPage := run.pageId_of_live live
    refine ⟨onPage, (run.rowAt_eq_some_iff recorded).mpr ?_⟩
    rwa [← onPage]

/-- Nothing can be added to a yield. -/
theorem Yields.eq_nil {more : List (RowId × Row)} (yields : Yields events results)
    (yields' : Yields events (results ++ more)) : more = [] := by
  refine List.eq_nil_iff_forall_not_mem.mpr fun ⟨rid, row⟩ member => ?_
  have live := (yields'.2 rid row).mp (List.mem_append_right _ member)
  have there : rid ∈ results.map Prod.fst :=
    List.mem_map_of_mem (f := Prod.fst) ((yields.2 rid row).mpr live)
  have apart := yields'.1
  rw [List.map_append] at apart
  exact List.disjoint_of_nodup_append apart there (List.mem_map_of_mem (f := Prod.fst) member)

/-! ### A page -/

theorem scanSlots_eq (well : page.WellSlotted) (count : Nat) :
    ∀ {i : Nat} {results : List (RowId × Row)},
    i + count ≤ page.recordCount →
    scanSlots none pid page count i results =
      .ok (results ++ (List.range' i count).filterMap (listed pid page)) := by
  induction count with
  | zero =>
    intro i results _
    rw [scanSlots, List.range'_zero, List.filterMap_nil, List.append_nil]
    rfl
  | succ count ih =>
    intro i results inside
    have counted : i < page.recordCount := by omega
    have rest : i + 1 + count ≤ page.recordCount := by omega
    rw [scanSlots, well.slotEntry counted, List.range'_succ]
    show (if (page.entryAt i).valid = 0 then _ else _) = _
    by_cases dead : (page.entryAt i).valid = 0
    · have nothing : listed pid page i = none := by
        unfold listed Page.rowAt
        rw [if_neg fun live => live.2 dead]
        rfl
      rw [if_pos dead, List.filterMap_cons_none nothing]
      exact ih rest
    · have live : page.Live i := ⟨counted, dead⟩
      have row : listed pid page i =
          some ({ pageId := pid, slotIndex := i }, deserializeRowData (page.textAt i)) := by
        unfold listed Page.rowAt
        rw [if_pos live]
        rfl
      rw [if_neg dead, well.peek_text live, List.filterMap_cons_some row]
      refine (ih rest).trans ?_
      rw [if_pos (Option.all_none ..), List.append_assoc, List.singleton_append]

/-- **On a well-slotted page** the scan lists the rows. -/
theorem scanSlots_listing (well : page.WellSlotted) :
    scanSlots none pid page page.recordCount 0 results = .ok (results ++ listing pid page) := by
  rw [scanSlots_eq well _ (Nat.zero_add _).le, ← List.range_eq_range']
  rfl

/-- With a snapshot too, nothing can go wrong there. -/
theorem scanSlots_ok {snapshot : Option MvccSnapshot} (well : page.WellSlotted) (count : Nat) :
    ∀ {i : Nat} {results : List (RowId × Row)}, i + count ≤ page.recordCount →
    ∃ found, scanSlots snapshot pid page count i results = .ok found := by
  induction count with
  | zero => exact fun {_ results} _ => ⟨results, rfl⟩
  | succ count ih =>
    intro i results inside
    have counted : i < page.recordCount := by omega
    rw [scanSlots, well.slotEntry counted]
    show ∃ found, (if (page.entryAt i).valid = 0 then _ else _) = Except.ok found
    by_cases dead : (page.entryAt i).valid = 0
    · rw [if_pos dead]
      exact ih (by omega)
    · rw [if_neg dead, well.peek_text ⟨counted, dead⟩]
      exact ih (by omega)

/-- Unused slots add nothing. -/
theorem scanSlots_unused (count : Nat) : ∀ {i : Nat},
    (∀ j, i ≤ j → j < i + count → ∃ entry, page.slotEntry j = .ok entry ∧ entry.valid = 0) →
    scanSlots none pid page count i results = .ok results := by
  induction count with
  | zero => exact fun _ => rfl
  | succ count ih =>
    intro i unused
    obtain ⟨entry, read, dead⟩ := unused i (Nat.le_refl i) (by omega)
    rw [scanSlots, read]
    show (if entry.valid = 0 then _ else _) = _
    rw [if_pos dead]
    exact ih fun j low high => unused j (by omega) (by omega)

/-- **The scan of a page keeps what was found**, and adds something for every slot in use. -/
theorem scanSlots_found (count : Nat) : ∀ {i : Nat} {results : List (RowId × Row)},
    scanSlots none pid page count i results = .ok found →
    ∃ more, found = results ++ more ∧ (more = [] →
      ∀ j, i ≤ j → j < i + count → ∃ entry, page.slotEntry j = .ok entry ∧ entry.valid = 0) := by
  induction count with
  | zero =>
    intro i results ran
    obtain rfl := Except.ok.inj ran
    exact ⟨[], (List.append_nil _).symm, fun _ j low high => by omega⟩
  | succ count ih =>
    intro i results ran
    rw [scanSlots] at ran
    cases read : page.slotEntry i with
    | error fault =>
      rw [read] at ran
      exact nomatch ran
    | ok entry =>
      rw [read] at ran
      change (if entry.valid = 0 then _ else _) = _ at ran
      by_cases dead : entry.valid = 0
      · rw [if_pos dead] at ran
        obtain ⟨more, split, unused⟩ := ih ran
        refine ⟨more, split, fun nothing j low high => ?_⟩
        rcases Nat.eq_or_lt_of_le low with rfl | later
        · exact ⟨entry, read, dead⟩
        · exact unused nothing j later (by omega)
      · rw [if_neg dead] at ran
        cases peeked : page.peek entry.offset entry.length with
        | error fault =>
          rw [peeked] at ran
          exact nomatch ran
        | ok data =>
          rw [peeked] at ran
          obtain ⟨more, split, -⟩ := ih ran
          rw [if_pos (Option.all_none ..), List.append_assoc] at split
          exact ⟨_, split, nofun⟩

/-! ### The pages -/

/-- **A page of the scan.** -/
theorem scanPages_ends {snapshot : Option MvccSnapshot}
    {returns : List (RowId × Row) → BufferPool → Prop} {throws : Fault → BufferPool → Prop}
    (ok : pool.Consistent) (missed : ∀ fault pool', Missed pid pool fault pool' ∨
      fault = DiskManager.noSuchPage pid ∧ pool.content pid = none ∧ Moves pool pool' pool.content →
        throws fault pool')
    (goesOn : ∀ page, pool.content pid = some page → Served pool pid →
      (∀ fault pool', scanSlots snapshot pid page page.recordCount 0 results = .error fault →
        throws fault pool') ∧
      ∀ results' pool', scanSlots snapshot pid page page.recordCount 0 results = .ok results' →
        Visits pool pool' pool.content →
          Ends (scanPages snapshot count (pid + 1) results') pool' returns throws) :
    Ends (scanPages snapshot (count + 1) pid results) pool returns throws := by
  rw [scanPages]
  refine Ends.bind ((fetchPage_fetches ok pid).mono (fun _ _ done => done) missed) ?_
  rintro page pinned ⟨holds, fetched⟩
  obtain ⟨fails, more⟩ := goesOn page holds fetched.served
  cases scanned : scanSlots snapshot pid page page.recordCount 0 results with
  | error fault =>
    exact fails fault pinned scanned
  | ok results' =>
    unfold inMemory
    simp only [ends_pure_bind, ends_modify_bind]
    exact more results' _ scanned (fetched.release ok)

/-- **Pages without a slot in use** add nothing. -/
theorem scanPages_quiet (count : Nat) : ∀ {pid : Nat} {pool : BufferPool}, pool.Consistent →
    pid + count ≤ pool.disk.pageCount →
    (∀ pageId, pid ≤ pageId → pageId < pid + count → Served pool pageId) →
    (∀ pageId page, pid ≤ pageId → pageId < pid + count → pool.content pageId = some page →
      page.Quiet) →
    Ends (scanPages none count pid results) pool (fun found _ => found = results)
      (fun _ _ => False) := by
  induction count with
  | zero => exact fun _ _ _ _ => rfl
  | succ count ih =>
    intro pid pool ok there served quiet
    have isThere : (pool.content pid).isSome := ok.content_isSome.mpr (by omega)
    refine scanPages_ends ok ?_ fun page holds _ => ?_
    · rintro fault pool' (missed | ⟨-, nothing, -⟩)
      · exact missed.1 (served pid (Nat.le_refl _) (by omega) missed.2.2.1)
      · rw [nothing] at isThere
        exact nomatch isThere
    have scanned : scanSlots none pid page page.recordCount 0 results = .ok results := by
      refine scanSlots_unused _ fun j _ counted => ?_
      exact quiet pid page (Nat.le_refl _) (by omega) holds j (by omega)
    refine ⟨fun fault _ fails => ?_, fun results' pool' ran visits => ?_⟩
    · exact nomatch scanned.symm.trans fails
    obtain rfl := Except.ok.inj (scanned.symm.trans ran)
    have same := ok.pageCount_eq visits.consistent visits.content
    refine ih visits.consistent (by omega) ?_ ?_
    · exact fun pageId low high => visits.served.mpr (served pageId (by omega) (by omega))
    · rw [visits.content]
      exact fun pageId page low high => quiet pageId page (by omega) (by omega)

/-- **A scan that returns** was served every page, and added something for every slot in use. -/
theorem scanPages_found (count : Nat) :
    ∀ {pid : Nat} {pool : BufferPool} {results : List (RowId × Row)},
    pool.Consistent →
    Ends (scanPages none count pid results) pool
      (fun found _ => ∃ more, found = results ++ more ∧
        ∀ pageId, pid ≤ pageId → pageId < pid + count → Served pool pageId ∧
          ∃ page, pool.content pageId = some page ∧ (more = [] → page.Quiet))
      (fun _ _ => True) := by
  induction count with
  | zero => exact fun _ => ⟨[], (List.append_nil _).symm, fun pageId low high => by omega⟩
  | succ count ih =>
    intro pid pool results ok
    refine scanPages_ends ok (fun _ _ _ => trivial) fun page holds served =>
      ⟨fun _ _ _ => trivial, ?_⟩
    intro results' pool' ran visits
    obtain ⟨here, rfl, unused⟩ := scanSlots_found _ ran
    refine (ih visits.consistent).mono ?_ fun _ _ _ => trivial
    rintro found _ ⟨more, rfl, rest⟩
    refine ⟨here ++ more, List.append_assoc .., fun pageId low high => ?_⟩
    rcases Nat.eq_or_lt_of_le low with rfl | later
    · refine ⟨served, page, holds, fun nothing i counted => ?_⟩
      exact unused (List.append_eq_nil_iff.mp nothing).1 i (Nat.zero_le i) (by rwa [Nat.zero_add])
    · obtain ⟨served', page', holds', quiet⟩ := rest pageId later (by omega)
      refine ⟨visits.served.mp served', page', visits.content ▸ holds', fun nothing => ?_⟩
      exact quiet (List.append_eq_nil_iff.mp nothing).2

/-- **On well-slotted pages** a scan can fail for want of a page only, and changes nothing. -/
theorem scanPages_slotted (snapshot : Option MvccSnapshot) (count : Nat) :
    ∀ {pid : Nat} {pool : BufferPool}
    {results : List (RowId × Row)}, pool.Ready →
    (∀ pageId page, pool.content pageId = some page → page.WellSlotted) →
    Ends (scanPages snapshot count pid results) pool (fun _ pool' => Moves pool pool' pool.content)
      (fun fault pool' => (∃ pageId, fault = DiskManager.noSuchPage pageId) ∧
        Moves pool pool' pool.content) := by
  induction count with
  | zero => exact fun ready _ => ready.consistent.moves_self
  | succ count ih =>
    intro pid pool results ready slotted
    refine scanPages_ends ready.consistent ?_ fun page holds _ => ?_
    · rintro fault pool' (missed | ⟨isMissing, -, moves⟩)
      · exact (ready.not_missed missed).elim
      · exact ⟨⟨pid, isMissing⟩, moves⟩
    obtain ⟨found, scanned⟩ := @scanSlots_ok page pid snapshot (slotted pid page holds) _ 0 results
      (Nat.zero_add _).le
    refine ⟨fun fault _ fails => ?_, fun results' pool' _ visits => ?_⟩
    · exact nomatch scanned.symm.trans fails
    have next := @ih (pid + 1) pool' results' (visits.ready ready) (visits.content ▸ slotted)
    rw [visits.content] at next
    exact next.mono (fun _ _ moves => visits.toMoves.trans moves)
      fun _ _ fails => ⟨fails.1, visits.toMoves.trans fails.2⟩

/-! ### The heap -/

/-- What a scan that returns has found, and was served. -/
theorem scan_found (owns : Owns heap pool page) :
    Ends (heap.scan none) pool
      (fun found _ => ∃ more, found = listing heap.firstPageId page ++ more ∧
        ∀ pageId, heap.firstPageId ≤ pageId → pageId < invalidPageId → Served pool pageId ∧
          ∃ page', pool.content pageId = some page' ∧
            (heap.firstPageId < pageId → more = [] → page'.Quiet))
      (fun _ _ => True) := by
  obtain ⟨ok, holds, well, -⟩ := owns
  unfold scan
  rcases Nat.lt_or_ge heap.firstPageId invalidPageId with inside | outside
  · obtain ⟨count, isCount⟩ : ∃ count, invalidPageId - heap.firstPageId = count + 1 :=
      ⟨_, (Nat.succ_pred_eq_of_pos (Nat.sub_pos_of_lt inside)).symm⟩
    rw [isCount]
    refine scanPages_ends ok (fun _ _ _ => trivial) fun page' holds' served =>
      ⟨fun _ _ _ => trivial, ?_⟩
    intro results pool' ran visits
    obtain rfl := Option.some.inj (holds.symm.trans holds')
    rw [scanSlots_listing well] at ran
    obtain rfl := Except.ok.inj ran
    refine (scanPages_found count visits.consistent).mono ?_ fun _ _ _ => trivial
    rintro found _ ⟨more, rfl, rest⟩
    refine ⟨more, rfl, fun pageId low high => ?_⟩
    rcases Nat.eq_or_lt_of_le low with rfl | later
    · exact ⟨served, page, holds, fun behind => absurd behind (Nat.lt_irrefl _)⟩
    · obtain ⟨served', page', holds', quiet⟩ := rest pageId later (by omega)
      exact ⟨visits.served.mp served', page', visits.content ▸ holds', fun _ => quiet⟩
  · have small := (lt_pageCount ok holds).trans_le (pageCount_small ok)
    exact absurd small (Nat.not_lt.mpr outside)

/-- **The scan lists the heap's page**, if all pages behind it are there and none has a slot in
use. -/
theorem scan_quiet (owns : Owns heap pool page) (full : pool.disk.pageCount = invalidPageId)
    (served : ∀ pageId, heap.firstPageId ≤ pageId → pageId < invalidPageId → Served pool pageId)
    (quiet : ∀ pageId page, heap.firstPageId < pageId → pool.content pageId = some page →
      page.Quiet) :
    Ends (heap.scan none) pool (fun found _ => found = listing heap.firstPageId page)
    (fun _ _ => False) := by
  obtain ⟨ok, holds, well, -⟩ := owns
  have inside := full ▸ lt_pageCount ok holds
  unfold scan
  obtain ⟨count, isCount⟩ : ∃ count, invalidPageId - heap.firstPageId = count + 1 :=
    ⟨_, (Nat.succ_pred_eq_of_pos (Nat.sub_pos_of_lt inside)).symm⟩
  rw [isCount]
  refine scanPages_ends ok ?_ fun page' holds' _ => ?_
  · rintro fault pool' (missed | ⟨-, nothing, -⟩)
    · exact missed.1 (served _ (Nat.le_refl _) inside missed.2.2.1)
    · exact nomatch holds.symm.trans nothing
  obtain rfl := Option.some.inj (holds.symm.trans holds')
  rw [scanSlots_listing well]
  refine ⟨nofun, fun results pool' ran visits => ?_⟩
  obtain rfl := Except.ok.inj ran
  refine scanPages_quiet count visits.consistent ?_ ?_ ?_
  · rw [ok.pageCount_eq visits.consistent visits.content, full]
    omega
  · exact fun pageId low high => visits.served.mpr (served pageId (by omega) (by omega))
  · rw [visits.content]
    exact fun pageId page low _ => quiet pageId page low

/-- **When the scan yields the rows of the heap**: the file has a page under every id, the pages of
the scan can be had, and on the pages behind the heap's no slot is in use. -/
theorem scan_yields_iff (run : HeapRun heap events pool) :
    Ends (heap.scan none) pool (fun found _ => Yields events found) (fun _ _ => False) ↔
      pool.disk.pageCount = invalidPageId ∧
        (∀ pageId, heap.firstPageId ≤ pageId → pageId < invalidPageId → Served pool pageId) ∧
        ∀ pageId page, heap.firstPageId < pageId → pool.content pageId = some page →
          page.Quiet := by
  obtain ⟨page, recorded⟩ := run.recorded
  have ok := recorded.consistent
  have small := pageCount_small ok
  have yields := run.yields_listing recorded
  constructor
  · intro ends
    obtain ⟨found, pool', ran, yields'⟩ := ends.exists_ok
    obtain ⟨more, rfl, visited⟩ := (scan_found recorded.toOwns).of_ok ran
    have nothing := yields.eq_nil yields'
    have last : invalidPageId - 1 < pool.disk.pageCount := by
      have first := lt_pageCount ok recorded.holds
      have size : invalidPageId = 2 ^ 32 - 1 := rfl
      obtain ⟨-, page', there, -⟩ := visited (invalidPageId - 1) (by omega) (by omega)
      exact lt_pageCount ok there
    refine ⟨le_antisymm small (by omega), fun pageId low high => (visited pageId low high).1, ?_⟩
    intro pageId page' behind holds
    obtain ⟨-, page'', holds', quiet⟩ :=
      visited pageId behind.le ((lt_pageCount ok holds).trans_le small)
    obtain rfl := Option.some.inj (holds.symm.trans holds')
    exact quiet behind nothing
  · rintro ⟨full, served, quiet⟩
    refine (scan_quiet recorded.toOwns full served quiet).mono ?_ fun _ _ never => never
    rintro found _ rfl
    exact yields

theorem scan_yields_iff_oneRow :
    ∃ heap pool, HeapRun heap [.inserted (longRow 1) ⟨0, 0⟩] pool ∧
      (Ends (heap.scan none) pool (fun found _ => Yields [.inserted (longRow 1) ⟨0, 0⟩] found)
          (fun _ _ => False) ↔
        pool.disk.pageCount = invalidPageId ∧
          (∀ pageId, heap.firstPageId ≤ pageId → pageId < invalidPageId → Served pool pageId) ∧
          ∀ pageId page, heap.firstPageId < pageId → pool.content pageId = some page →
            page.Quiet) := by
  obtain ⟨heap, start, pool, inserted, page, -, ok, created, -, owns, ran, -⟩ := exists_oneRow
  have run : HeapRun heap [.inserted (longRow 1) ⟨0, 0⟩] inserted :=
    .step (.create ok created) (.insert (by decide +kernel) owns.holds (by decide +kernel) ran)
  exact ⟨heap, inserted, run, scan_yields_iff run⟩

theorem scan_oneRow_throws {start : BufferPool} (isStart : start = onePagePool) :
    Ends (do
      let heap ← create
      let _ ← heap.insertRow default 0 (longRow 1)
      heap.scan none) start (fun _ _ => False)
        (fun fault _ => fault = DiskManager.noSuchPage 1) := by
  rw [isStart]
  decide +kernel

/-- A heap with one row on the only page of the file: behind it the scan finds no page. -/
theorem scan_leaves_file :
    ∃ heap pool, HeapRun heap [.inserted (longRow 1) ⟨0, 0⟩] pool ∧
      Ends (heap.scan none) pool (fun _ _ => False)
        (fun fault _ => fault = DiskManager.noSuchPage 1) ∧
      ¬ Ends (heap.scan none) pool (fun found _ => Yields [.inserted (longRow 1) ⟨0, 0⟩] found)
        (fun _ _ => False) := by
  obtain ⟨heap, start, pool, inserted, page, isStart, ok, created, -, owns, ran, -⟩ := exists_oneRow
  have throws : Ends (heap.scan none) inserted (fun _ _ => False)
      (fun fault _ => fault = DiskManager.noSuchPage 1) :=
    (ends_bind_of_ok ran).mp ((ends_bind_of_ok created).mp (scan_oneRow_throws isStart))
  have run : HeapRun heap [.inserted (longRow 1) ⟨0, 0⟩] inserted :=
    .step (.create ok created) (.insert (by decide +kernel) owns.holds (by decide +kernel) ran)
  exact ⟨heap, inserted, run, throws, throws.not_of_throws⟩

end TableHeap

end MyDb
