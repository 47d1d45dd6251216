/-
**The buffer pool drops the least recently used page.**

A `UsedPool` is a pool with the history of its uses: the pages fetched or created, the last one in
front. Its clients may do anything, in any order (`UsedPool.step`): unpin what they did not pin,
change pages they do not hold, and go on after a call that failed.

`lru_order`: after any events, `pages_`, `lruList_` and `lruMap_` hold the same ids, `lruList_` in
the order of the last use; a page that an event drops was the least recently used of those without a
pin; and a call finds the pool full exactly when every frame is taken and pinned.
-/

import MyDatabaseEngine.Storage.PoolLru
import MyDatabaseEngine.Storage.Transparency

namespace MyDb

open Outcome BufferPool LruCache

/-- A pool, and the pages that were fetched or created, the last one in front. -/
structure UsedPool where
  pool : BufferPool
  used : List Nat := []

namespace UsedPool

variable {C : Type}

/-- One event. A call that throws uses no page. -/
def step (s : UsedPool) : PoolEvent C → UsedPool
  | .fetchPage _ pageId =>
    match s.pool.fetchPage pageId with
    | .ok _ pool => { pool, used := pageId :: s.used }
    | .error _ pool => { s with pool }
  | .newPage _ =>
    match s.pool.newPage with
    | .ok page pool => { pool, used := page.id :: s.used }
    | .error _ pool => { s with pool }
  | .change _ pageId page => { s with pool := s.pool.write pageId page }
  | .unpin _ pageId isDirty => { s with pool := s.pool.unpin pageId isDirty }
  | .flushPage pageId =>
    match s.pool.flushPage pageId with
    | .ok _ pool | .error _ pool => { s with pool }
  | .flushAll order =>
    match s.pool.flushAll order with
    | .ok _ pool | .error _ pool => { s with pool }

/-- The pool's structures agree with each other, and its order with its history. -/
structure Tracked (poolSize : Nat) (s : UsedPool) : Prop where
  indexed : s.pool.Indexed
  sound : s.pool.lru.Sound s.used
  poolSize : s.pool.poolSize = poolSize

/-- **What a dropped page was**: unpinned, and the least recently used of the unpinned ones. -/
def LeastRecent (s : UsedPool) (pageId : Nat) : Prop :=
  s.pool.pinned pageId = 0 ∧ ∀ other ∈ s.pool.lruIds, other ≠ pageId → s.pool.pinned other = 0 →
    UsedAfter s.used other pageId

variable {poolSize : Nat} {s : UsedPool}

theorem tracked_start (poolSize : Nat) (disk : DiskManager) :
    Tracked poolSize { pool := { poolSize, disk } } where
  indexed := ⟨⟨fun _ _ => ⟨nofun, nofun⟩, nofun⟩, fun _ => ⟨nofun, nofun⟩, nofun⟩
  sound := sound_nil poolSize _
  poolSize := rfl

/-- What one event does: the structures still agree, and what it dropped was least recent. -/
structure Steps (poolSize : Nat) (s s' : UsedPool) : Prop where
  tracked : Tracked poolSize s'
  dropped : ∀ pageId ∈ s.pool.lruIds, pageId ∉ s'.pool.lruIds → s.LeastRecent pageId

/-- An event that leaves the cache alone. -/
theorem Tracked.steps_of_eq (tracked : s.Tracked poolSize) {pool : BufferPool}
    (indexed : pool.Indexed) (same : pool.lru = s.pool.lru) : Steps poolSize s { s with pool } where
  tracked := ⟨indexed, same ▸ tracked.sound, (congrArg capacity same).trans tracked.poolSize⟩
  dropped := by
    intro pageId there gone
    have ids : pool.lruIds = s.pool.lruIds := congrArg recent same
    exact (gone (ids ▸ there)).elim

/-- An event that makes room and no more. -/
theorem Tracked.steps_of_makeRoom (tracked : s.Tracked poolSize) {pool : BufferPool}
    (indexed : pool.Indexed) (made : s.pool.lru.makeRoom = some pool.lru) :
    Steps poolSize s { s with pool } where
  tracked :=
    ⟨indexed, (tracked.sound.makeRoom made).1, (makeRoom_pins made).2.trans tracked.poolSize⟩
  dropped := fun _ there gone => dropped_of_makeRoom tracked.sound made there gone

/-- **An event that is a request.** -/
theorem Tracked.steps_of_fetch (tracked : s.Tracked poolSize) {pool : BufferPool}
    (indexed : pool.Indexed) {there : Bool} {pageId : Nat} {reply : Reply}
    (ran : s.pool.lru.fetch there pageId = (reply, pool.lru)) :
    Steps poolSize s { pool, used := if reply = .served then pageId :: s.used else s.used } where
  tracked := by
    have sound := tracked.sound.fetch there pageId
    have size := @capacity_fetch _ _ s.pool.lru there pageId
    rw [ran] at sound size
    exact ⟨indexed, sound, size.trans tracked.poolSize⟩
  dropped := by
    intro other there' gone
    refine @dropped_of_fetch _ _ s.pool.lru s.used other tracked.sound there pageId there' ?_
    rw [ran]
    exact gone

/-- **One event.** -/
theorem Tracked.steps (tracked : s.Tracked poolSize) (event : PoolEvent C) :
    Steps poolSize s (s.step event) := by
  cases event with
  | fetchPage client pageId =>
    have ends := fetchPage_serves tracked.indexed pageId
    cases ran : s.pool.fetchPage pageId with
    | ok page pool =>
      obtain ⟨indexed, served⟩ := ends.of_ok ran
      simp only [step, ran]
      exact tracked.steps_of_fetch indexed served
    | error fault pool =>
      obtain ⟨indexed, -, ⟨-, full⟩ | ⟨-, -, missing | same⟩⟩ := ends.of_error ran
      all_goals simp only [step, ran]
      · exact tracked.steps_of_fetch indexed full
      · exact tracked.steps_of_fetch indexed missing
      · exact tracked.steps_of_eq indexed same
  | newPage client =>
    have ends := newPage_serves tracked.indexed
    cases ran : s.pool.newPage with
    | ok page pool =>
      obtain ⟨indexed, -, -, served⟩ := ends.of_ok ran
      simp only [step, ran]
      exact tracked.steps_of_fetch indexed served
    | error fault pool =>
      obtain ⟨indexed, ⟨-, -, rfl⟩ | ⟨-, -, made | same⟩⟩ := ends.of_error ran
      all_goals simp only [step, ran]
      · exact tracked.steps_of_eq indexed rfl
      · exact tracked.steps_of_makeRoom indexed made
      · exact tracked.steps_of_eq indexed same
  | change client pageId page =>
    obtain ⟨indexed, same⟩ := tracked.indexed.write pageId page
    exact tracked.steps_of_eq indexed same
  | unpin client pageId isDirty =>
    obtain ⟨indexed, same⟩ := tracked.indexed.unpin pageId isDirty
    refine ⟨⟨indexed, ?_, (congrArg capacity same).trans tracked.poolSize⟩,
      fun other there gone => ?_⟩
    · show (BufferPool.unpin pageId isDirty s.pool).lru.Sound s.used
      rw [same]
      exact tracked.sound.congr_pins _
    · have ids : (BufferPool.unpin pageId isDirty s.pool).lruIds = s.pool.lruIds :=
        congrArg recent same
      exact (gone (ids ▸ there)).elim
  | flushPage pageId =>
    have ends := flushPage_keeps tracked.indexed pageId
    cases ran : s.pool.flushPage pageId with
    | ok _ pool =>
      simp only [step, ran]
      exact tracked.steps_of_eq (ends.of_ok ran).1 (ends.of_ok ran).2
    | error fault pool =>
      simp only [step, ran]
      exact tracked.steps_of_eq (ends.of_error ran).2.1 (ends.of_error ran).2.2
  | flushAll order =>
    have ends := flushAll_keeps tracked.indexed order
    cases ran : s.pool.flushAll order with
    | ok _ pool =>
      simp only [step, ran]
      exact tracked.steps_of_eq (ends.of_ok ran).1 (ends.of_ok ran).2
    | error fault pool =>
      simp only [step, ran]
      exact tracked.steps_of_eq (ends.of_error ran).2.1 (ends.of_error ran).2.2

/-- **Every run.** -/
theorem Tracked.run (events : List (PoolEvent C)) : ∀ {s : UsedPool}, s.Tracked poolSize →
    (events.foldl step s).Tracked poolSize := by
  induction events with
  | nil => exact fun tracked => tracked
  | cons event events ih => exact fun tracked => ih (tracked.steps event).tracked

/-- The calls that need a frame find none exactly when all frames are taken and pinned. -/
theorem full_iff (tracked : s.Tracked poolSize) :
    s.pool.lru.Full ↔ poolSize ≤ s.pool.pages.keys.card ∧
      ∀ pageId ∈ s.pool.pages, 0 < s.pool.pinned pageId := by
  unfold LruCache.Full
  rw [tracked.indexed.card_pages, ← tracked.poolSize]
  refine and_congr_right fun _ => forall_congr' fun pageId => ?_
  exact imp_congr_left tracked.indexed.mem_lruIds

theorem fetchPage_full_iff (tracked : s.Tracked poolSize) {pageId : Nat}
    (absent : pageId ∉ s.pool.pages) :
    (∃ pool, s.pool.fetchPage pageId = .error poolFull pool) ↔ s.pool.lru.Full := by
  have ends := fetchPage_serves tracked.indexed pageId
  have unlisted : pageId ∉ s.pool.lru.recent := fun member =>
    absent (tracked.indexed.mem_lruIds.mp member)
  constructor
  · rintro ⟨pool, ran⟩
    obtain ⟨-, -, ⟨-, full⟩ | ⟨other, -⟩⟩ := ends.of_error ran
    · exact (fetch_full_iff false unlisted).mp (congrArg Prod.fst full)
    · exact (poolFull_of_otherFault other).elim
  · intro full
    cases ran : s.pool.fetchPage pageId with
    | ok page pool =>
      have served := (fetch_full_iff true unlisted).mpr full
      rw [(ends.of_ok ran).2] at served
      exact nomatch served
    | error fault pool =>
      obtain ⟨-, -, ⟨rfl, -⟩ | ⟨-, notFull, -⟩⟩ := ends.of_error ran
      · exact ⟨pool, rfl⟩
      · exact (notFull full).elim

theorem newPage_full_iff (tracked : s.Tracked poolSize) :
    (∃ pool, s.pool.newPage = .error poolFull pool) ↔ s.pool.lru.Full := by
  have ends := newPage_serves tracked.indexed
  constructor
  · rintro ⟨pool, ran⟩
    obtain ⟨-, ⟨-, full, -⟩ | ⟨other, -⟩⟩ := ends.of_error ran
    · exact full
    · exact (poolFull_of_otherFault other).elim
  · intro full
    cases ran : s.pool.newPage with
    | ok page pool =>
      obtain ⟨-, -, unlisted, served⟩ := ends.of_ok ran
      have isFull := (fetch_full_iff true unlisted).mpr full
      rw [served] at isFull
      exact nomatch isFull
    | error fault pool =>
      obtain ⟨-, ⟨rfl, -⟩ | ⟨-, notFull, -⟩⟩ := ends.of_error ran
      · exact ⟨pool, rfl⟩
      · exact (notFull full).elim

end UsedPool

open UsedPool

/-- **The pool drops the least recently used page.** After any calls by any clients on a new pool of
any size, with whatever bytes they write into the frames:

* the three structures hold the same ids, each once and at most `poolSize` of them, and `lruList_`
  has them in the order of their last use;
* a page that the next call drops has no pin, and every other page without one was used after it;
* fetching a page that is not in the pool, or creating one, fails with `Buffer pool full` if and
  only if there are `poolSize` pages in the pool and all of them are pinned. -/
theorem lru_order {C : Type} (poolSize : Nat) (disk : DiskManager) (events : List (PoolEvent C)) :
    let s := events.foldl step { pool := { poolSize, disk } }
    ((∀ pageId, pageId ∈ s.pool.lruIds ↔ pageId ∈ s.pool.pages) ∧
      (∀ pageId, pageId ∈ s.pool.lruMap ↔ pageId ∈ s.pool.pages) ∧
      s.pool.lruIds.Nodup ∧ s.pool.lruIds.length ≤ poolSize ∧
      s.pool.lruIds.Pairwise (UsedAfter s.used)) ∧
    (∀ event : PoolEvent C, ∀ pageId ∈ s.pool.pages, pageId ∉ (s.step event).pool.pages →
      s.pool.pinned pageId = 0 ∧ ∀ other ∈ s.pool.pages, other ≠ pageId → s.pool.pinned other = 0 →
        UsedAfter s.used other pageId) ∧
    (∀ pageId ∉ s.pool.pages, (∃ pool, s.pool.fetchPage pageId = .error poolFull pool) ↔
      poolSize ≤ s.pool.pages.keys.card ∧ ∀ other ∈ s.pool.pages, 0 < s.pool.pinned other) ∧
    ((∃ pool, s.pool.newPage = .error poolFull pool) ↔
      poolSize ≤ s.pool.pages.keys.card ∧ ∀ other ∈ s.pool.pages, 0 < s.pool.pinned other) := by
  intro s
  have tracked : s.Tracked poolSize := (tracked_start poolSize disk).run events
  have ids : ∀ pageId, pageId ∈ s.pool.lruIds ↔ pageId ∈ s.pool.pages :=
    fun pageId => tracked.indexed.mem_lruIds
  refine ⟨⟨ids, fun pageId => (tracked.indexed.listed pageId).symm, tracked.sound.once, ?_,
    tracked.sound.ordered⟩, ?_, ?_, ?_⟩
  · rw [← tracked.poolSize]
    exact tracked.sound.bounded
  · intro event pageId there gone
    have steps := tracked.steps event
    have unlisted : pageId ∉ (s.step event).pool.lruIds := fun member =>
      gone (steps.tracked.indexed.mem_lruIds.mp member)
    obtain ⟨unpinned, others⟩ := steps.dropped pageId ((ids pageId).mpr there) unlisted
    exact ⟨unpinned, fun other there' => others other ((ids other).mpr there')⟩
  · intro pageId absent
    rw [fetchPage_full_iff tracked absent, full_iff tracked]
  · rw [newPage_full_iff tracked, full_iff tracked]

end MyDb
