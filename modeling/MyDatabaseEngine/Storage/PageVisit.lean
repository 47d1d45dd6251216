/-
**Visits to a page: fetched, looked at or changed, and released.**

A visit pins one page and releases it again, so it leaves every pin count as it was. On the content
of the pages it does what it would do to an unbounded memory (`Moves`), unless every frame is pinned
by others; then `fetchPage` throws and nothing has changed (`Refused`). In a pool with a frame to be
had (`Ready`) this cannot happen.

* `Visits` is what a visit has done when it returns, `Fetched` what holds while its page is pinned.
* `fetching_ends` is the rule for a visit: fetch, go on with the page, release.
* `newPage_makes` is that for a new page. It may find the file full: `DiskFull` says that the file
  has as many pages as it may have, and `Exhausted` that it has no room for the pages a call needs.
-/

import MyDatabaseEngine.Storage.PoolSpec

namespace MyDb

open Outcome

/-! ### What can go wrong in memory -/

/-- **Nothing worse than undefined behaviour**: the result throws no exception. -/
def NoWorse {α : Type} (result : Except Fault α) : Prop :=
  ∀ fault, result = .error fault → fault = .undefinedBehaviour

namespace NoWorse

variable {α β : Type}

theorem ok (value : α) : NoWorse (.ok value) := nofun

theorem error : NoWorse (.error .undefinedBehaviour : Except Fault α) :=
  fun _ fails => (Except.error.inj fails).symm

theorem bind {result : Except Fault α} {next : α → Except Fault β} (first : NoWorse result)
    (then' : ∀ value, NoWorse (next value)) : NoWorse (result >>= next) := by
  cases result with
  | ok value => exact then' value
  | error fault =>
    obtain rfl := first fault rfl
    exact error

/-- **Work in memory** keeps what the pool has. -/
theorem inMemory {result : Except Fault α} (noWorse : NoWorse result) {inv : BufferPool → Prop}
    {throws : Fault → BufferPool → Prop}
    (undefined : ∀ pool, inv pool → throws .undefinedBehaviour pool) :
    Keeps inv throws (inMemory result) := by
  intro pool holds
  cases result with
  | ok value => exact holds
  | error fault =>
    obtain rfl := noWorse fault rfl
    exact undefined pool holds

end NoWorse

namespace BufferPool

/-- **There is a frame to be had**: fewer pages are pinned than the pool has frames. -/
structure Ready (pool : BufferPool) : Prop where
  consistent : pool.Consistent
  room : ∀ pageIds : Finset Nat, (∀ pageId ∈ pageIds, 0 < pool.pinned pageId) →
    pageIds.card < pool.poolSize

/-- **A pool after a call that pins nothing**: `content` is what the pages hold now. -/
structure Moves (pool pool' : BufferPool) (content : Nat → Option Page) : Prop where
  consistent : pool'.Consistent
  content : pool'.content = content
  pinned : pool'.pinned = pool.pinned
  poolSize : pool'.poolSize = pool.poolSize
  maxPages : pool'.disk.maxPages = pool.disk.maxPages

/-- **No page could be added to the file**, which has as many as it may have. -/
def DiskFull (maxPages : Nat) (fault : Fault) (pool : BufferPool) : Prop :=
  fault = DiskManager.failedToWrite maxPages ∧ pool.disk.pageCount = maxPages ∧
    pool.disk.file.fail = true

/-- **The disk is full, and too small** for the number of pages that are needed. -/
def Exhausted (maxPages needed : Nat) (fault : Fault) (pool : BufferPool) : Prop :=
  DiskFull maxPages fault pool ∧ maxPages < needed

/-- With room for the pages that are needed a call returns. -/
theorem exists_ok_of_room {α : Type} {call : EStateM Fault BufferPool α} {start : BufferPool}
    {returns : α → BufferPool → Prop} {maxPages needed : Nat}
    (ends : Ends call start returns (Exhausted maxPages needed)) (room : needed ≤ maxPages) :
    ∃ value pool, call start = .ok value pool ∧ returns value pool :=
  (ends.mono (fun _ _ done => done) fun _ _ exhausted => Nat.not_lt.mpr room exhausted.2).exists_ok

variable {pool pool' : BufferPool} {content : Nat → Option Page}

theorem ready_of_unpinned (ok : pool.Consistent) (frames : 0 < pool.poolSize)
    (unpinned : ∀ pageId, pool.pinned pageId = 0) : pool.Ready where
  consistent := ok
  room := by
    intro pageIds pinned
    have none : pageIds = ∅ := by
      refine Finset.eq_empty_of_forall_notMem fun pageId member => ?_
      exact absurd (pinned pageId member) (by rw [unpinned]; exact Nat.lt_irrefl 0)
    rw [none]
    exact frames

/-- A pool of one frame over an empty file. -/
def onePagePool : BufferPool := { poolSize := 1, disk := DiskManager.openFile [] 8 (by decide) }

/-- A pool with a frame for every page. -/
def eightPagePool : BufferPool := { poolSize := 8, disk := DiskManager.openFile [] 8 (by decide) }

theorem ready_onePagePool : onePagePool.Ready :=
  ready_of_unpinned (consistent_new (DiskManager.usable_openFile (by decide) (by decide)))
    (by decide) fun _ => rfl

theorem Ready.not_full (ready : pool.Ready) : ¬ pool.Full := by
  rintro ⟨many, pinned⟩
  have few :=
    ready.room pool.pages.keys fun pageId member => pinned pageId (Finmap.mem_keys.mp member)
  exact absurd few (Nat.not_lt.mpr many)

/-- Every page of the file has an id that is not `INVALID_PAGE_ID`. -/
theorem pageCount_small (ok : pool.Consistent) : pool.disk.pageCount ≤ 2 ^ 32 - 1 := by
  have fits := ok.usable.fits
  have small := pool.disk.maxPages_lt
  omega

theorem lt_pageCount (ok : pool.Consistent) {pageId : Nat} {page : Page}
    (holds : pool.content pageId = some page) : pageId < pool.disk.pageCount :=
  ok.content_isSome.mp (holds ▸ rfl)

/-- A page that nobody has pinned is settled. -/
theorem Consistent.settled_of_unpinned (ok : pool.Consistent) {pageId : Nat}
    (unpinned : pool.pinned pageId = 0) : pool.Settled pageId := by
  unfold BufferPool.pinned at unpinned
  intro frame found
  simp only [found] at unpinned
  exact ok.released pageId frame found unpinned frame found

namespace Moves

theorem ready (moves : Moves pool pool' content) (ready : pool.Ready) : pool'.Ready where
  consistent := moves.consistent
  room := by
    rw [moves.pinned, moves.poolSize]
    exact ready.room

theorem trans {pool'' : BufferPool} {content' : Nat → Option Page}
    (first : Moves pool pool' content) (next : Moves pool' pool'' content') :
    Moves pool pool'' content' :=
  ⟨next.consistent, next.content, next.pinned.trans first.pinned,
    next.poolSize.trans first.poolSize,
    next.maxPages.trans first.maxPages⟩

/-- A page written with what it held. -/
theorem update_self (moves : Moves pool pool' pool.content) {pageId : Nat} {page : Page}
    (holds : pool.content pageId = some page) :
    Moves pool pool' (Function.update pool.content pageId (some page)) := by
  rwa [(Function.update_eq_self_iff ..).mpr holds.symm]

end Moves

theorem Becomes.moves (becomes : Becomes pool pool' ⟨content, pool.pinned⟩) :
    Moves pool pool' content :=
  ⟨becomes.consistent, becomes.content, becomes.pinned, becomes.poolSize, becomes.maxPages⟩

/-- What is pinned and released is pinned as before. -/
theorem unpin_pin (memory : Memory) (pageId : Nat) :
    (memory.pin pageId).unpin pageId = memory := by
  unfold Memory.unpin Memory.pin
  simp only [Function.update_self, Function.update_idem, Nat.add_sub_cancel,
    Function.update_eq_self]

/-- A frame released as dirty needs no look at the disk. -/
theorem becomes_unpin_dirty (ok : pool.Consistent) (pageId : Nat) :
    Becomes pool (unpin pageId true pool) (pool.memory.unpin pageId) :=
  (@becomes_unpin pool ok pageId true nofun).1

/-- A page that is written is there. -/
theorem Moves.pageCount_update {pageId : Nat} {page : Page}
    (moves : Moves pool pool' (Function.update pool.content pageId (some page)))
    (ok : pool.Consistent) (there : pageId ≤ pool.disk.pageCount) :
    pool'.disk.pageCount = max pool.disk.pageCount (pageId + 1) := by
  have iff : ∀ other, other < pool'.disk.pageCount ↔
      other < max pool.disk.pageCount (pageId + 1) := by
    intro other
    rw [← moves.consistent.content_isSome, moves.content]
    by_cases same : other = pageId
    · rw [same, Function.update_self]
      exact iff_of_true rfl (by omega)
    · rw [Function.update_of_ne same, ok.content_isSome]
      omega
  refine Nat.le_antisymm (Nat.not_lt.mp fun more => ?_) (Nat.not_lt.mp fun fewer => ?_)
  · exact Nat.lt_irrefl _ ((iff _).mp more)
  · exact Nat.lt_irrefl _ ((iff _).mpr fewer)

/-! ### Cached pages -/

/-- A page that is pinned is in the pool. -/
theorem mem_pages_of_pinned {pageId : Nat} (pins : 0 < pool.pinned pageId) :
    pageId ∈ pool.pages := by
  by_contra absent
  unfold BufferPool.pinned at pins
  simp only [Finmap.lookup_eq_none.mpr absent, Nat.lt_irrefl] at pins

@[simp]
theorem mem_setFrame {pageId other : Nat} {frame : Frame} :
    other ∈ (setFrame pageId frame pool).pages ↔ other = pageId ∨ other ∈ pool.pages :=
  Finmap.mem_insert

/-- `unpin` and `write` leave the pages of the pool in it. -/
theorem mem_unpin {pageId other : Nat} {isDirty : Bool} :
    other ∈ (unpin pageId isDirty pool).pages ↔ other ∈ pool.pages := by
  unfold unpin
  cases found : pool.pages.lookup pageId with
  | none => rfl
  | some frame =>
    exact mem_setFrame.trans
      (or_iff_right_of_imp fun same => same ▸ Finmap.mem_of_lookup_eq_some found)

theorem mem_write {pageId other : Nat} {page : Page} :
    other ∈ (write pageId page pool).pages ↔ other ∈ pool.pages := by
  unfold write
  cases found : pool.pages.lookup pageId with
  | none => rfl
  | some frame =>
    exact mem_setFrame.trans
      (or_iff_right_of_imp fun same => same ▸ Finmap.mem_of_lookup_eq_some found)

/-- **A page in the pool can be fetched.** -/
theorem fetchPage_cached {pageId : Nat} (cached : pageId ∈ pool.pages) :
    Ends (fetchPage pageId) pool
      (fun _ pool' => ∀ other, other ∈ pool'.pages ↔ other ∈ pool.pages) (fun _ _ => False) := by
  obtain ⟨frame, found⟩ := Finmap.mem_iff.mp cached
  unfold fetchPage
  rw [ends_get_bind]
  simp only [found, ends_modify_bind, ends_pure]
  have touched : (touchPage pageId pool).pages = pool.pages := by
    unfold touchPage
    cases pool.lruMap.lookup pageId <;> rfl
  intro other
  rw [mem_setFrame, touched]
  exact or_iff_right_of_imp fun same => same ▸ cached

/-- **No room can be made in a full pool.** -/
theorem makeRoom_refused (ok : pool.Consistent) (full : pool.Full) :
    Ends makeRoom pool (fun _ _ => False) (fun fault pool' => fault = poolFull ∧ pool' = pool) := by
  have cached : ∀ node ∈ pool.lruList.entries.reverse, node.2 ∈ pool.pages :=
    fun node member => ok.cached_of_mem_lruList (List.mem_reverse.mp member)
  have noVictim : candidate pool.pages pool.lruList.entries.reverse = .none := by
    rcases candidate_spec cached with ⟨noVictim, -⟩ | ⟨node, frame, -, -, found, unpinned, -⟩
    · exact noVictim
    · have pins := full.2 node.2 (Finmap.mem_of_lookup_eq_some found)
      unfold BufferPool.pinned at pins
      simp only [found, unpinned, Nat.lt_irrefl] at pins
  have evicts : Ends evict pool (fun evicted pool' => evicted = false ∧ pool' = pool)
      (fun fault pool' => fault = poolFull ∧ pool' = pool) := by
    unfold evict
    rw [ends_get_bind]
    simp only [noVictim, ends_pure]
    exact ⟨trivial, trivial⟩
  unfold makeRoom
  rw [ends_get_bind, if_pos full.1]
  refine evicts.bind ?_
  rintro _ _ ⟨rfl, rfl⟩
  exact ⟨rfl, rfl⟩

theorem fetchPage_refused (ok : pool.Consistent) (full : pool.Full) {pageId : Nat}
    (absent : pageId ∉ pool.pages) :
    Ends (fetchPage pageId) pool (fun _ _ => False)
      (fun fault pool' => fault = poolFull ∧ pool' = pool) := by
  unfold fetchPage
  rw [ends_get_bind]
  simp only [Finmap.lookup_eq_none.mpr absent]
  exact (makeRoom_refused ok full).bind nofun

theorem newPage_refused (ok : pool.Consistent) (full : pool.Full) :
    Ends newPage pool (fun _ _ => False) (fun fault pool' => fault = poolFull ∧ pool' = pool) := by
  unfold newPage
  exact (makeRoom_refused ok full).bind nofun

/-! ### Visits -/

/-- **No frame could be had**: everything is as it was. -/
def Refused (pool : BufferPool) (fault : Fault) (pool' : BufferPool) : Prop :=
  fault = poolFull ∧ pool.Full ∧ Moves pool pool' pool.content

/-- **No frame could be had for a page**, which is not in the pool. -/
def Missed (pageId : Nat) (pool : BufferPool) (fault : Fault) (pool' : BufferPool) : Prop :=
  pageId ∉ pool.pages ∧ Refused pool fault pool'

theorem Ready.not_refused (ready : pool.Ready) {fault : Fault} : ¬ Refused pool fault pool' :=
  fun refused => ready.not_full refused.2.1

theorem Ready.not_missed (ready : pool.Ready) {fault : Fault} {pageId : Nat} :
    ¬ Missed pageId pool fault pool' := fun missed => ready.not_refused missed.2

/-- A frame can be had for the page, or it has one. -/
def Served (pool : BufferPool) (pageId : Nat) : Prop := pool.Full → pageId ∈ pool.pages

/-- **A pool after visits**: it is full if it was, and then of the same pages. -/
structure Visits (pool pool' : BufferPool) (content : Nat → Option Page) : Prop
    extends Moves pool pool' content where
  full : pool'.Full ↔ pool.Full
  kept : pool.Full → ∀ other, other ∈ pool'.pages ↔ other ∈ pool.pages

variable {α : Type} {pageId : Nat} {page page' : Page} {returns : α → BufferPool → Prop}
  {throws : Fault → BufferPool → Prop} {pinned : BufferPool}

theorem Consistent.moves_self (ok : pool.Consistent) : Moves pool pool pool.content :=
  ⟨ok, rfl, rfl, rfl, rfl⟩

theorem Visits.served (visits : Visits pool pool' content) : Served pool' pageId ↔
    Served pool pageId := by
  unfold Served
  by_cases full : pool.Full
  · exact imp_congr visits.full (visits.kept full pageId)
  · exact iff_of_true (fun full' => absurd (visits.full.mp full') full) fun full' =>
      absurd full' full

theorem Visits.trans {pool'' : BufferPool} {content' : Nat → Option Page}
    (first : Visits pool pool' content) (next : Visits pool' pool'' content') :
    Visits pool pool'' content' where
  toMoves := first.toMoves.trans next.toMoves
  full := next.full.trans first.full
  kept := fun full other => (next.kept (first.full.mpr full) other).trans (first.kept full other)

/-- Who is refused after visits that changed nothing could have been refused before. -/
theorem Refused.of_visits {fault : Fault} {pool'' : BufferPool}
    (refused : Refused pool' fault pool'') (visits : Visits pool pool' pool.content) :
    Refused pool fault pool'' := by
  obtain ⟨isFull, full, moves⟩ := refused
  exact ⟨isFull, visits.full.mp full, visits.toMoves.trans (visits.content ▸ moves)⟩

/-- **A pool after a fetch.** -/
structure Fetched (pool : BufferPool) (pageId : Nat) (pinned : BufferPool) : Prop
    extends Becomes pool pinned (pool.memory.pin pageId) where
  served : Served pool pageId
  kept : pageId ∈ pool.pages → ∀ other, other ∈ pinned.pages ↔ other ∈ pool.pages

/-- **`fetchPage`.** -/
theorem fetchPage_fetches (ok : pool.Consistent) (pageId : Nat) :
    Ends (fetchPage pageId) pool
      (fun page pinned => pool.content pageId = some page ∧ Fetched pool pageId pinned)
      (fun fault pool' => Missed pageId pool fault pool' ∨
        fault = DiskManager.noSuchPage pageId ∧ pool.content pageId = none ∧
          Moves pool pool' pool.content) := by
  have ends := fetchPage_ends ok pageId
  by_cases cached : pageId ∈ pool.pages
  · obtain ⟨page, pinned, ran, kept⟩ := (fetchPage_cached cached).exists_ok
    obtain ⟨holds, becomes⟩ := ends.of_ok ran
    exact ends_of_eq_ok ran ⟨holds, becomes, fun _ => cached, fun _ => kept⟩
  · cases ran : fetchPage pageId pool with
    | ok page pinned =>
      obtain ⟨holds, becomes⟩ := ends.of_ok ran
      refine ends_of_eq_ok ran ⟨holds, becomes, fun full => ?_, fun there => absurd there cached⟩
      exact ((fetchPage_refused ok full cached).of_ok ran).elim
    | error fault pool' =>
      obtain ⟨why, becomes⟩ := ends.of_error ran
      refine ends_of_eq_error ran (why.imp ?_ ?_)
      · exact fun ⟨isFull, full⟩ => ⟨cached, isFull, full, becomes.moves⟩
      · exact fun ⟨isMissing, nothing⟩ => ⟨isMissing, nothing, becomes.moves⟩

/-- **A page is fetched**, and pinned; the call goes on with what it holds. -/
theorem fetching_ends {next : Page → EStateM Fault BufferPool α} (ok : pool.Consistent)
    (holds : pool.content pageId = some page)
    (missed : ∀ fault pool', Missed pageId pool fault pool' → throws fault pool')
    (goesOn : ∀ pinned, Fetched pool pageId pinned → Ends (next page) pinned returns throws) :
    Ends (fetchPage pageId >>= next) pool returns throws := by
  refine Ends.bind ((fetchPage_fetches ok pageId).mono (fun _ _ done => done) ?_) ?_
  · rintro fault pool' (isMissed | ⟨-, none, -⟩)
    · exact missed fault pool' isMissed
    · exact nomatch holds.symm.trans none
  · rintro fetched pinned ⟨same, fetched⟩
    obtain rfl := Option.some.inj (holds.symm.trans same)
    exact goesOn pinned fetched

namespace Fetched

theorem pins (fetched : Fetched pool pageId pinned) :
    pinned.pinned pageId = pool.pinned pageId + 1 := by
  rw [fetched.pinned]
  exact Function.update_self ..

/-- A fetched page is in the pool. -/
theorem cached (fetched : Fetched pool pageId pinned) : pageId ∈ pinned.pages := by
  refine mem_pages_of_pinned ?_
  rw [fetched.pins]
  exact Nat.succ_pos _

/-- **A visit ends** in a pool with the pages of the fetch and the pins of before. -/
theorem visits (fetched : Fetched pool pageId pinned) (moves : Moves pool pool' content)
    (same : ∀ other, other ∈ pool'.pages ↔ other ∈ pinned.pages) : Visits pool pool' content := by
  by_cases cached : pageId ∈ pool.pages
  · have kept : ∀ other, other ∈ pool'.pages ↔ other ∈ pool.pages :=
      fun other => (same other).trans (fetched.kept cached other)
    have keys : pool'.pages.keys = pool.pages.keys := by
      ext other
      rw [Finmap.mem_keys, Finmap.mem_keys, kept]
    refine ⟨moves, ?_, fun _ => kept⟩
    unfold Full
    rw [keys, moves.poolSize, moves.pinned]
    simp only [kept]
  · -- the page came in, and is not pinned
    have notFull : ¬ pool.Full := fun full => cached (fetched.served full)
    refine ⟨moves, iff_of_false ?_ notFull, fun full => absurd full notFull⟩
    rintro ⟨-, pinned⟩
    have pins := pinned pageId ((same pageId).mpr fetched.cached)
    rw [moves.pinned] at pins
    exact cached (mem_pages_of_pinned pins)

/-- **A fetched page is released unchanged.** -/
theorem release (fetched : Fetched pool pageId pinned) (ok : pool.Consistent) :
    Visits pool (unpin pageId false pinned) pool.content := by
  have settled : pinned.pinned pageId ≤ 1 → false = false → pinned.Settled pageId := by
    intro last _
    have pins := fetched.pins
    exact fetched.settled pageId (ok.settled_of_unpinned (by omega))
  have released := (becomes_unpin fetched.consistent settled).1
  rw [fetched.shows, unpin_pin] at released
  exact fetched.visits (fetched.toBecomes.trans released).moves fun _ => mem_unpin

/-- **A fetched page is changed and released.** -/
theorem releaseWritten (fetched : Fetched pool pageId pinned) (page' : Page) :
    Visits pool (unpin pageId true (write pageId page' pinned))
      (Function.update pool.content pageId (some page')) := by
  have held : 0 < pinned.pinned pageId := by
    rw [fetched.pins]
    exact Nat.succ_pos _
  obtain ⟨ok, shows, -, size, disk⟩ := consistent_write fetched.consistent page' held
  have released := becomes_unpin_dirty ok pageId
  rw [shows, fetched.shows] at released
  have same :=
    released.shows.trans (congrArg (Memory.write pageId page') (unpin_pin pool.memory pageId))
  refine fetched.visits ?_ fun _ => mem_unpin.trans mem_write
  exact ⟨released.consistent, congrArg Memory.content same, congrArg Memory.pinned same,
    released.poolSize.trans (size.trans fetched.poolSize),
    released.maxPages.trans (disk ▸ fetched.maxPages)⟩

end Fetched

/-- **A page is made**, and released: there was room, and there still is. -/
theorem newPage_makes (ok : pool.Consistent) :
    Ends newPage pool
      (fun page pinned => page = Page.new pool.disk.pageCount ∧ page.id = pool.disk.pageCount ∧
        pool.disk.pageCount < pool.disk.maxPages ∧ ¬ pool.Full ∧
        ¬ (unpin pool.disk.pageCount true pinned).Full ∧
        Moves pool (unpin pool.disk.pageCount true pinned)
          (Function.update pool.content pool.disk.pageCount (some page)))
      (fun fault pool' => Refused pool fault pool' ∨
        Exhausted pool.disk.maxPages (pool.disk.pageCount + 1) fault pool') := by
  have ends := newPage_ends ok
  cases ran : newPage pool with
  | error fault pool' =>
    refine ends_of_eq_error ran ((ends.of_error ran).imp ?_ ?_)
    · exact fun ⟨isFull, full, becomes⟩ => ⟨isFull, full, becomes.moves⟩
    · exact fun ⟨isFailure, full, full', failed⟩ =>
        ⟨⟨isFailure, full', failed⟩, Nat.lt_succ_of_le full.ge⟩
  | ok page pinned =>
    obtain ⟨isNew, isNext, room, becomes⟩ := ends.of_ok ran
    have released := becomes_unpin_dirty becomes.consistent pool.disk.pageCount
    rw [becomes.shows, unpin_pin] at released
    have moves := (becomes.trans released).moves
    refine ends_of_eq_ok ran ⟨isNew, isNext, room, fun full => ?_, fun full => ?_, moves⟩
    · exact (newPage_refused ok full).of_ok ran
    · have cached : pool.disk.pageCount ∈ pinned.pages := by
        refine mem_pages_of_pinned ?_
        rw [becomes.pinned]
        show 0 < Function.update pool.pinned _ (pool.pinned _ + 1) _
        rw [Function.update_self]
        exact Nat.succ_pos _
      have pins := full.2 pool.disk.pageCount (mem_unpin.mpr cached)
      rw [moves.pinned] at pins
      exact Nat.lt_irrefl _ (ok.onDisk _ (mem_pages_of_pinned pins))

end BufferPool

end MyDb
