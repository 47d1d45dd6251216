/-
**The buffer pool is a cache that drops the least recently used page.**

`lru` is the `LruCache` that the pool's three structures stand for: the ids in `lruList_` from the
front, with the pin counts of their frames. On an `Indexed` pool each call does to it what the
cache's operation does (`fetchPage_serves`, `newPage_serves`, `lru_unpin`, `flushPage_keeps`), also
when it throws.

Nothing is asked of the disk here but that it counts its pages: a call that fails on the file leaves
the three structures in agreement too.
-/

import MyDatabaseEngine.Lib.LruCache
import MyDatabaseEngine.Storage.PoolSpec

namespace MyDb

open Outcome

/-! ### What the disk manager counts -/

namespace DiskManager

variable {disk : DiskManager}

theorem readPage_counts (pageId : Nat) :
    Ends (readPage pageId) disk
      (fun _ disk' => pageId < disk.pageCount ∧ disk'.pageCount = disk.pageCount)
      (fun fault disk' => (fault = noSuchPage pageId ∨ fault = failedToRead pageId) ∧
        disk'.pageCount = disk.pageCount) := by
  by_cases beyond : pageId ≥ disk.pageCount
  · have ran : readPage pageId disk = .error (noSuchPage pageId) disk := if_pos beyond
    exact ends_of_eq_error ran ⟨.inl rfl, rfl⟩
  · by_cases success : ((disk.file.seek (pageOffset pageId)).read pageSize).2.fail = false
    · have ran : readPage pageId disk = .ok ⟨_, (FileStream.read_success success).1⟩
          { disk with file := ((disk.file.seek (pageOffset pageId)).read pageSize).2 } := by
        unfold readPage
        rw [if_neg beyond]
        exact dif_pos success
      exact ends_of_eq_ok ran ⟨Nat.not_le.mp beyond, rfl⟩
    · have ran : readPage pageId disk = .error (failedToRead pageId)
          { disk with file := ((disk.file.seek (pageOffset pageId)).read pageSize).2 } := by
        unfold readPage
        rw [if_neg beyond]
        exact dif_neg success
      exact ends_of_eq_error ran ⟨.inr rfl, rfl⟩

/-- A page that could be written is within the limit. -/
theorem lt_maxPages_of_written {pageId : Nat} {page : Page}
    (written : (writeWithin disk.maxPages page.bytes (disk.file.seek (pageOffset pageId))).fail =
      false) : pageId < disk.maxPages := by
  have whole := page.length_eq
  unfold writeWithin at written
  split at written
  · rename_i short
    have good : (disk.file.seek (pageOffset pageId)).good = true := by
      unfold FileStream.write at written
      split at written
      · assumption
      · exact nomatch written
    have notFailed : disk.file.fail = false := by
      by_contra failed
      rw [FileStream.seek_of_fail (Bool.of_not_eq_false failed)] at good
      exact failed (FileStream.fail_of_good good)
    unfold FileStream.seek at short
    rw [notFailed, if_neg Bool.false_ne_true] at short
    simp only [pageOffset, whole, pageSize] at short
    omega
  · exact nomatch written

theorem writePage_counts (pageId : Nat) (page : Page) :
    Ends (writePage pageId page) disk
      (fun _ disk' => pageId < disk.maxPages ∧
        disk'.pageCount = max disk.pageCount (pageId + 1))
      (fun fault disk' => fault = failedToWrite pageId ∧ disk'.pageCount = disk.pageCount) := by
  have count : (if pageId ≥ disk.pageCount then pageId + 1 else disk.pageCount) =
      max disk.pageCount (pageId + 1) := by
    split <;> omega
  by_cases failed : (writeWithin disk.maxPages page.bytes
      (disk.file.seek (pageOffset pageId))).fail = true
  · have ran : writePage pageId page disk = .error (failedToWrite pageId)
        { disk with
          file := writeWithin disk.maxPages page.bytes (disk.file.seek (pageOffset pageId)) } := by
      unfold writePage
      exact if_pos failed
    exact ends_of_eq_error ran ⟨rfl, rfl⟩
  · have ran : writePage pageId page disk = .ok ()
        { disk with
          file := writeWithin disk.maxPages page.bytes (disk.file.seek (pageOffset pageId))
          pageCount := if pageId ≥ disk.pageCount then pageId + 1 else disk.pageCount } := by
      unfold writePage
      exact if_neg failed
    exact ends_of_eq_ok ran ⟨lt_maxPages_of_written (Bool.eq_false_of_not_eq_true failed), count⟩

theorem allocatePage_counts :
    Ends allocatePage disk
      (fun newId disk' => newId = disk.pageCount ∧ newId < 2 ^ 32 ∧ disk'.pageCount = newId + 1)
      (fun fault disk' => (∃ pageId, fault = failedToWrite pageId) ∧
        disk'.pageCount = disk.pageCount) := by
  unfold allocatePage
  rw [ends_get_bind]
  refine Ends.bind ((writePage_counts _ _).mono (fun _ _ done => done) ?_) ?_
  · rintro fault disk' ⟨isFailure, count⟩
    exact ⟨⟨_, isFailure⟩, count⟩
  · rintro - disk' ⟨room, count⟩
    rw [ends_pure]
    refine ⟨rfl, room.trans disk.maxPages_lt, count.trans ?_⟩
    exact Nat.max_eq_right (Nat.le_succ _)

end DiskManager

namespace BufferPool

/-! ### The pool as a cache -/

/-- The page ids in `lruList_`, from the front. -/
def lruIds (pool : BufferPool) : List Nat := pool.lruList.entries.map Sigma.snd

/-- **The cache a pool is.** -/
def lru (pool : BufferPool) : LruCache Nat := ⟨pool.poolSize, pool.lruIds, pool.pinned⟩

/-- **`pages_`, `lruList_` and `lruMap_` hold the same page ids**, all of them pages of the file. -/
structure Indexed (pool : BufferPool) : Prop where
  linked : pool.Linked
  listed : ∀ pageId, pageId ∈ pool.pages ↔ pageId ∈ pool.lruMap
  counted : ∀ pageId ∈ pool.pages, pageId < pool.disk.pageCount

variable {pool : BufferPool} {pageId : Nat}

theorem Consistent.indexed (ok : pool.Consistent) : pool.Indexed :=
  ⟨ok.linked, ok.listed, ok.onDisk⟩

theorem Linked.nodup_lruIds (linked : pool.Linked) : pool.lruIds.Nodup := by
  refine List.Nodup.map_on ?_ pool.lruList.nodupKeys.nodup
  rintro ⟨node, page⟩ member ⟨node', page'⟩ member' same
  obtain rfl : page = page' := same
  have points := (linked.nodes node page).mp (AList.mem_lookup_iff.mpr member)
  have points' := (linked.nodes node' page).mp (AList.mem_lookup_iff.mpr member')
  rw [Option.some.inj (points.symm.trans points')]

theorem Indexed.mem_lruIds (indexed : pool.Indexed) : pageId ∈ pool.lruIds ↔
    pageId ∈ pool.pages := by
  unfold lruIds
  rw [indexed.listed]
  constructor
  · intro member
    obtain ⟨⟨node, page⟩, among, rfl⟩ := List.mem_map.mp member
    exact Finmap.mem_of_lookup_eq_some
      ((indexed.linked.nodes node page).mp (AList.mem_lookup_iff.mpr among))
  · intro there
    obtain ⟨node, points⟩ := Finmap.mem_iff.mp there
    have among := AList.mem_lookup_iff.mp ((indexed.linked.nodes node pageId).mpr points)
    exact List.mem_map.mpr ⟨_, among, rfl⟩

theorem Indexed.card_pages (indexed : pool.Indexed) :
    pool.pages.keys.card = pool.lruIds.length := by
  have same : pool.pages.keys = pool.lruIds.toFinset := by
    ext pageId
    rw [Finmap.mem_keys, List.mem_toFinset, indexed.mem_lruIds]
  rw [same, List.toFinset_card_of_nodup indexed.linked.nodup_lruIds]

/-- Without the node of a page the list is without the page. -/
theorem Linked.lruIds_erase (linked : pool.Linked) {node : Nat}
    (found : pool.lruList.lookup node = some pageId) :
    (pool.lruList.erase node).entries.map Sigma.snd = pool.lruIds.erase pageId := by
  obtain ⟨front, back, split⟩ := List.append_of_mem (AList.mem_lookup_iff.mp found)
  have keys := pool.lruList.keys_nodup
  have ids := linked.nodup_lruIds
  unfold lruIds AList.keys List.keys at *
  rw [split, List.map_append, List.map_cons] at keys ids
  have absentKey : node ∉ front.map Sigma.fst := fun member =>
    (List.nodup_append'.mp keys).2.2 member List.mem_cons_self
  have absentId : pageId ∉ front.map Sigma.snd := fun member =>
    (List.nodup_append'.mp ids).2.2 member List.mem_cons_self
  show (pool.lruList.entries.kerase node).map Sigma.snd = _
  have cut : List.kerase node ((⟨node, pageId⟩ : Σ _ : Nat, Nat) :: back) = back :=
    List.kerase_cons_eq rfl
  rw [split, List.kerase_append_right absentKey, cut, List.map_append, List.map_append,
    List.map_cons, List.erase_append_right _ absentId, List.erase_cons_head]

/-- The new node's page stands in front. -/
theorem lruIds_pushFront (fresh : ∀ node ∈ pool.lruList, node < pool.nextNode) :
    (pushFront pageId pool).lruIds = pageId :: pool.lruIds := by
  have newNode : pool.nextNode ∉ pool.lruList := fun there => Nat.lt_irrefl _ (fresh _ there)
  unfold lruIds pushFront
  simp only [AList.entries_insert_of_notMem newNode, List.map_cons]

/-! ### Frames -/

theorem Indexed.setFrame (indexed : pool.Indexed) (cached : pageId ∈ pool.pages) (frame : Frame) :
    (setFrame pageId frame pool).Indexed where
  linked := ⟨indexed.linked.nodes, indexed.linked.fresh⟩
  listed := by
    intro other
    show other ∈ pool.pages.insert pageId frame ↔ other ∈ pool.lruMap
    rw [Finmap.mem_insert, ← indexed.listed]
    exact or_iff_right_of_imp fun same => same ▸ cached
  counted := by
    intro other there
    rcases Finmap.mem_insert.mp there with same | there
    · exact same ▸ indexed.counted pageId cached
    · exact indexed.counted other there

theorem lru_setFrame (pageId : Nat) (frame : Frame) :
    (setFrame pageId frame pool).lru =
      ⟨pool.poolSize, pool.lruIds, Function.update pool.pinned pageId frame.pinCount⟩ := by
  unfold lru
  rw [pinned_setFrame]
  rfl

/-- A changed frame with the same pins is the same to the cache. -/
theorem lru_setFrame_of_pinned {frame old : Frame} (found : pool.pages.lookup pageId = some old)
    (same : frame.pinCount = old.pinCount) : (setFrame pageId frame pool).lru = pool.lru := by
  rw [lru_setFrame]
  unfold lru
  congr 1
  refine (Function.update_eq_self_iff ..).mpr ?_
  simp only [BufferPool.pinned, found, same]

/-- One more pin on a frame. -/
theorem lru_setFrame_pin {frame : Frame} (found : pool.pages.lookup pageId = some frame) :
    (setFrame pageId { frame with pinCount := frame.pinCount + 1 } pool).lru =
      pool.lru.pin pageId := by
  have pins : pool.pinned pageId = frame.pinCount := by
    simp only [BufferPool.pinned, found]
  rw [lru_setFrame, ← pins]
  rfl

/-- **A page comes in.** -/
theorem Indexed.addFrame (indexed : pool.Indexed) (absent : pageId ∉ pool.pages)
    (counted : pageId < pool.disk.pageCount) {frame : Frame} (once : frame.pinCount = 1) :
    (pushFront pageId (BufferPool.setFrame pageId frame pool)).Indexed ∧
      (pushFront pageId (BufferPool.setFrame pageId frame pool)).lru = pool.lru.load pageId := by
  refine ⟨⟨?_, ?_, ?_⟩, ?_⟩
  · have kept : (BufferPool.setFrame pageId frame pool).Linked :=
      ⟨indexed.linked.nodes, indexed.linked.fresh⟩
    exact kept.pushFront fun there => absent ((indexed.listed pageId).mpr there)
  · intro other
    show other ∈ pool.pages.insert pageId frame ↔ other ∈ pool.lruMap.insert pageId _
    rw [Finmap.mem_insert, Finmap.mem_insert, indexed.listed]
  · intro other there
    rcases Finmap.mem_insert.mp there with same | there
    · exact same ▸ counted
    · exact indexed.counted other there
  · have ids : (pushFront pageId (BufferPool.setFrame pageId frame pool)).lruIds =
        pageId :: pool.lruIds := lruIds_pushFront indexed.linked.fresh
    have pins : (pushFront pageId (BufferPool.setFrame pageId frame pool)).pinned =
        Function.update pool.pinned pageId 1 := once ▸ pinned_setFrame pageId frame
    unfold lru LruCache.load
    rw [ids, pins]
    rfl

/-- **A page goes.** -/
theorem Indexed.dropFrame (indexed : pool.Indexed) {node : Nat} {frame : Frame}
    (listed : pool.lruList.lookup node = some pageId)
    (found : pool.pages.lookup pageId = some frame) (unpinned : frame.pinCount = 0) :
    ({ pool with
        pages := pool.pages.erase pageId
        lruMap := pool.lruMap.erase pageId
        lruList := pool.lruList.erase node } : BufferPool).Indexed ∧
      ({ pool with
        pages := pool.pages.erase pageId
        lruMap := pool.lruMap.erase pageId
        lruList := pool.lruList.erase node } : BufferPool).lru = pool.lru.drop pageId := by
  refine ⟨⟨indexed.linked.erase listed, ?_, ?_⟩, ?_⟩
  · intro other
    show other ∈ pool.pages.erase pageId ↔ other ∈ pool.lruMap.erase pageId
    rw [Finmap.mem_erase, Finmap.mem_erase, indexed.listed]
  · exact fun other there => indexed.counted other (Finmap.mem_erase.mp there).2
  · unfold lru LruCache.drop
    congr 1
    · exact indexed.linked.lruIds_erase listed
    · ext other
      by_cases same : other = pageId
      · subst same
        simp only [BufferPool.pinned, Finmap.lookup_erase, found, unpinned]
      · simp only [BufferPool.pinned, Finmap.lookup_erase_ne same]

/-- Another state of the disk manager. -/
theorem Indexed.disk (indexed : pool.Indexed) {disk : DiskManager}
    (count : pool.disk.pageCount ≤ disk.pageCount) : ({ pool with disk } : BufferPool).Indexed :=
  ⟨⟨indexed.linked.nodes, indexed.linked.fresh⟩, indexed.listed,
    fun other there => Nat.lt_of_lt_of_le (indexed.counted other there) count⟩

/-! ### The calls -/

/-- What can stop a call other than a full pool. -/
def OtherFault (fault : Fault) : Prop :=
  (∃ pageId, fault = DiskManager.noSuchPage pageId) ∨
    (∃ pageId, fault = DiskManager.failedToRead pageId) ∨
    ∃ pageId, fault = DiskManager.failedToWrite pageId

theorem poolFull_of_otherFault : ¬ OtherFault poolFull := by
  have different : ∀ text rest : Str, text.head? ≠ (str "B").head? → text ≠ [] →
      poolFull ≠ .runtimeError (text ++ rest) := by
    intro text rest apart some same
    refine apart ?_
    have head := congrArg List.head? (Fault.runtimeError.inj same)
    rw [List.head?_append_of_ne_nil _ some] at head
    rw [← head]
    rfl
  rintro (⟨pageId, same⟩ | ⟨pageId, same⟩ | ⟨pageId, same⟩)
  · unfold DiskManager.noSuchPage at same
    rw [List.append_assoc] at same
    exact different _ _ (by decide) (by decide) same
  · exact different _ _ (by decide) (by decide) same
  · exact different _ _ (by decide) (by decide) same

/-- The pool after a call on its disk manager: the cache is as before. -/
theorem onDisk_keeps {α : Type} {call : EStateM Fault DiskManager α} (indexed : pool.Indexed)
    {returns : α → DiskManager → Prop} {throws : Fault → DiskManager → Prop}
    (ends : Ends call pool.disk
      (fun value disk => returns value disk ∧ pool.disk.pageCount ≤ disk.pageCount)
      fun fault disk => throws fault disk ∧ pool.disk.pageCount ≤ disk.pageCount) :
    Ends (onDisk call) pool
      (fun value pool' => returns value pool'.disk ∧ pool'.Indexed ∧ pool'.lru = pool.lru ∧
        pool'.pages = pool.pages ∧ pool'.lruList = pool.lruList)
      (fun fault pool' => throws fault pool'.disk ∧ pool'.Indexed ∧ pool'.lru = pool.lru) :=
  ends.onPart _ _
    (fun _ _ done => ⟨done.1, indexed.disk done.2, rfl, rfl, rfl⟩)
    fun _ _ done => ⟨done.1, indexed.disk done.2, rfl⟩

theorem writeFrame_keeps (indexed : pool.Indexed) (pageId : Nat) (page : Page) :
    Ends (onDisk (DiskManager.writePage pageId page)) pool
      (fun _ pool' => pool.disk.pageCount ≤ pool'.disk.pageCount ∧ pool'.Indexed ∧
        pool'.lru = pool.lru ∧ pool'.pages = pool.pages ∧ pool'.lruList = pool.lruList)
      (fun fault pool' => OtherFault fault ∧ pool'.Indexed ∧ pool'.lru = pool.lru) := by
  have counts : Ends (DiskManager.writePage pageId page) pool.disk
      (fun _ disk => pool.disk.pageCount ≤ disk.pageCount ∧ pool.disk.pageCount ≤ disk.pageCount)
      (fun fault disk => OtherFault fault ∧ pool.disk.pageCount ≤ disk.pageCount) := by
    apply (DiskManager.writePage_counts pageId page).mono
    · rintro _ disk ⟨-, count⟩
      exact ⟨count ▸ Nat.le_max_left _ _, count ▸ Nat.le_max_left _ _⟩
    · rintro _ disk ⟨isFailure, count⟩
      exact ⟨.inr (.inr ⟨_, isFailure⟩), count.ge⟩
  exact onDisk_keeps indexed counts

/-- **`evict`** drops the cache's victim. -/
theorem evict_drops (indexed : pool.Indexed) :
    Ends evict pool
      (fun evicted pool' => pool'.Indexed ∧ pool.disk.pageCount ≤ pool'.disk.pageCount ∧
        (evicted = true ∧ pool.lru.victim?.map pool.lru.drop = some pool'.lru ∨
          evicted = false ∧ pool.lru.victim? = none ∧ pool' = pool))
      (fun fault pool' => OtherFault fault ∧ pool'.Indexed ∧ pool'.lru = pool.lru ∧
        pool.lru.victim? ≠ none) := by
  unfold evict
  rw [ends_get_bind]
  have cached : ∀ node ∈ pool.lruList.entries.reverse, node.2 ∈ pool.pages := by
    intro node member
    exact indexed.mem_lruIds.mp (List.mem_map_of_mem (List.mem_reverse.mp member))
  have victim : pool.lru.victim? = (pool.lruList.entries.reverse.map Sigma.snd).find?
      fun pageId => pool.pinned pageId = 0 := by
    rw [List.map_reverse]
    rfl
  rcases candidate_spec cached with
    ⟨noVictim, none⟩ | ⟨node, frame, found, member, onPage, unpinned, first⟩
  · simp only [noVictim, ends_pure]
    exact ⟨indexed, le_rfl, .inr ⟨trivial, victim.trans none, trivial⟩⟩
  · have listed := AList.mem_lookup_iff.mpr (List.mem_reverse.mp member)
    simp only [found]
    have written : Ends (BufferPool.writeBack node.2 frame) pool
        (fun _ pool' => pool.disk.pageCount ≤ pool'.disk.pageCount ∧ pool'.Indexed ∧
          pool'.lru = pool.lru ∧ pool'.pages = pool.pages ∧ pool'.lruList = pool.lruList)
        (fun fault pool' => OtherFault fault ∧ pool'.Indexed ∧ pool'.lru = pool.lru) := by
      unfold BufferPool.writeBack
      split
      · exact writeFrame_keeps indexed _ _
      · exact ⟨le_rfl, indexed, rfl, rfl, rfl⟩
    have isVictim := victim.trans first
    refine Ends.bind (written.mono (fun _ _ done => done) ?_) ?_
    · rintro fault pool' ⟨other, indexed', same⟩
      exact ⟨other, indexed', same, by rw [isVictim]; exact Option.some_ne_none _⟩
    rintro _ stored ⟨count, indexed', same, pages, lruList⟩
    rw [ends_modify_bind, ends_pure]
    obtain ⟨indexed'', dropped⟩ :=
      indexed'.dropFrame (lruList ▸ listed) (pages ▸ onPage) unpinned
    refine ⟨indexed'', count, .inl ⟨rfl, ?_⟩⟩
    rw [isVictim, dropped, same]
    rfl

/-- **`makeRoom`** makes room in the cache. -/
theorem makeRoom_drops (indexed : pool.Indexed) :
    Ends makeRoom pool
      (fun _ pool' => pool'.Indexed ∧ pool.disk.pageCount ≤ pool'.disk.pageCount ∧
        pool.lru.makeRoom = some pool'.lru)
      (fun fault pool' => pool'.Indexed ∧
        (fault = poolFull ∧ pool.lru.makeRoom = none ∧ pool' = pool ∨
          OtherFault fault ∧ pool.lru.makeRoom ≠ none ∧ pool'.lru = pool.lru)) := by
  unfold makeRoom LruCache.makeRoom
  rw [ends_get_bind, indexed.card_pages]
  by_cases atCapacity : pool.lruIds.length ≥ pool.poolSize
  · rw [if_pos atCapacity]
    simp only [show pool.lru.capacity ≤ pool.lru.recent.length from atCapacity, if_true]
    refine Ends.bind ((evict_drops indexed).mono (fun _ _ done => done) ?_) ?_
    · rintro fault pool' ⟨other, indexed', same, victim⟩
      refine ⟨indexed', .inr ⟨other, ?_, same⟩⟩
      exact fun none => victim (Option.map_eq_none_iff.mp none)
    rintro evicted pool' ⟨indexed', count, ⟨rfl, dropped⟩ | ⟨rfl, none, rfl⟩⟩
    · exact ⟨indexed', count, dropped⟩
    · exact ⟨indexed', .inl ⟨rfl, by rw [none]; rfl, rfl⟩⟩
  · rw [if_neg atCapacity, ends_pure]
    refine ⟨indexed, le_rfl, ?_⟩
    rw [if_neg (show ¬ pool.lru.capacity ≤ pool.lru.recent.length from atCapacity)]

/-- `touchPage` is a use. -/
theorem Indexed.touchPage (indexed : pool.Indexed) (cached : pageId ∈ pool.pages) :
    (touchPage pageId pool).Indexed ∧ (BufferPool.touchPage pageId pool).lru =
      pool.lru.touch pageId ∧
      (BufferPool.touchPage pageId pool).pages = pool.pages := by
  obtain ⟨node, points⟩ := Finmap.mem_iff.mp ((indexed.listed pageId).mp cached)
  have listed := (indexed.linked.nodes node pageId).mpr points
  have linked := indexed.linked.touchPage pageId
  unfold BufferPool.touchPage at linked ⊢
  simp only [points] at linked ⊢
  refine ⟨⟨linked, ?_, indexed.counted⟩, ?_, rfl⟩
  · intro other
    show other ∈ pool.pages ↔ other ∈ pool.lruMap.insert pageId _
    rw [Finmap.mem_insert, indexed.listed]
    exact (or_iff_right_of_imp fun same => same ▸ (indexed.listed pageId).mp cached).symm
  · unfold lru LruCache.touch
    congr 1
    refine (lruIds_pushFront fun other there => ?_).trans ?_
    · exact indexed.linked.fresh other (AList.mem_erase.mp there).2
    · exact congrArg (pageId :: ·) (indexed.linked.lruIds_erase listed)

/-- **`fetchPage` is a request** for a page that the file has or has not. -/
theorem fetchPage_serves (indexed : pool.Indexed) (pageId : Nat) :
    Ends (fetchPage pageId) pool
      (fun _ pool' => pool'.Indexed ∧ pool.lru.fetch true pageId = (.served, pool'.lru))
      (fun fault pool' => pool'.Indexed ∧ pageId ∉ pool.lruIds ∧
        (fault = poolFull ∧ pool.lru.fetch false pageId = (.full, pool'.lru) ∨
          OtherFault fault ∧ ¬ pool.lru.Full ∧
            (pool.lru.fetch false pageId = (.missing, pool'.lru) ∨ pool'.lru = pool.lru))) := by
  unfold fetchPage
  rw [ends_get_bind]
  cases found : pool.pages.lookup pageId with
  | some frame =>
    have cached := Finmap.mem_of_lookup_eq_some found
    obtain ⟨indexed', used, pages⟩ := indexed.touchPage cached
    simp only [ends_modify_bind, ends_pure]
    refine ⟨indexed'.setFrame (pages ▸ cached) _, ?_⟩
    rw [lru_setFrame_pin (pages ▸ found), used]
    exact if_pos (indexed.mem_lruIds.mpr cached)
  | none =>
    have absent := Finmap.lookup_eq_none.mp found
    have notListed : pageId ∉ pool.lruIds := fun member => absent (indexed.mem_lruIds.mp member)
    refine Ends.bind ((makeRoom_drops indexed).mono (fun _ _ done => done) ?_) ?_
    · rintro fault pool' ⟨indexed', ⟨rfl, full, rfl⟩ | ⟨other, some, same⟩⟩
      · exact ⟨indexed', notListed, .inl ⟨rfl, LruCache.fetch_of_full notListed full⟩⟩
      · exact ⟨indexed', notListed,
          .inr ⟨other, fun full => some (LruCache.makeRoom_eq_none.mpr full), .inr same⟩⟩
    rintro _ roomy ⟨indexed', -, made⟩
    have notFull : ¬ pool.lru.Full := fun full =>
      Option.some_ne_none _ (made.symm.trans (LruCache.makeRoom_eq_none.mpr full))
    have absent' : pageId ∉ roomy.pages := fun there =>
      notListed ((LruCache.makeRoom_sublist made).subset (indexed'.mem_lruIds.mpr there))
    have counts : Ends (DiskManager.readPage pageId) roomy.disk
        (fun _ disk => pageId < disk.pageCount ∧ roomy.disk.pageCount ≤ disk.pageCount)
        (fun fault disk => OtherFault fault ∧ roomy.disk.pageCount ≤ disk.pageCount) := by
      apply (DiskManager.readPage_counts pageId).mono
      · rintro _ disk ⟨there, count⟩
        exact ⟨count ▸ there, count.ge⟩
      · rintro _ disk ⟨isFailure, count⟩
        exact ⟨isFailure.imp (⟨_, ·⟩) fun failed => .inl ⟨_, failed⟩, count.ge⟩
    refine Ends.bind ((onDisk_keeps indexed' counts).mono (fun _ _ done => done) ?_) ?_
    · rintro fault pool' ⟨other, indexed'', same⟩
      refine ⟨indexed'', notListed, .inr ⟨other, notFull, .inl ?_⟩⟩
      rw [same]
      exact LruCache.fetch_of_room notListed made
    rintro page read ⟨there, indexed'', same, pages, -⟩
    simp only [ends_modify_bind, ends_pure]
    obtain ⟨indexedNow, loaded⟩ :=
      @Indexed.addFrame read pageId indexed'' (pages ▸ absent') there { page, pinCount := 1 } rfl
    refine ⟨indexedNow, ?_⟩
    rw [loaded, same]
    exact LruCache.fetch_of_room notListed made

/-- **`newPage` is a request** for a page that nobody has. -/
theorem newPage_serves (indexed : pool.Indexed) :
    Ends newPage pool
      (fun page pool' => pool'.Indexed ∧ page = Page.new page.id ∧ page.id ∉ pool.lruIds ∧
        pool.lru.fetch true page.id = (.served, pool'.lru))
      (fun fault pool' => pool'.Indexed ∧
        (fault = poolFull ∧ pool.lru.Full ∧ pool' = pool ∨
          OtherFault fault ∧ ¬ pool.lru.Full ∧
            (pool.lru.makeRoom = some pool'.lru ∨ pool'.lru = pool.lru))) := by
  unfold newPage
  refine Ends.bind ((makeRoom_drops indexed).mono (fun _ _ done => done) ?_) ?_
  · rintro fault pool' ⟨indexed', ⟨rfl, full, rfl⟩ | ⟨other, some, same⟩⟩
    · exact ⟨indexed', .inl ⟨rfl, LruCache.makeRoom_eq_none.mp full, rfl⟩⟩
    · exact ⟨indexed',
        .inr ⟨other, fun full => some (LruCache.makeRoom_eq_none.mpr full), .inr same⟩⟩
  rintro _ roomy ⟨indexed', grown, made⟩
  have counts : Ends DiskManager.allocatePage roomy.disk
      (fun newId disk => (newId = roomy.disk.pageCount ∧ newId < 2 ^ 32 ∧ newId < disk.pageCount) ∧
        roomy.disk.pageCount ≤ disk.pageCount)
      (fun fault disk => OtherFault fault ∧ roomy.disk.pageCount ≤ disk.pageCount) := by
    apply DiskManager.allocatePage_counts.mono
    · rintro newId disk ⟨isNext, small, count⟩
      exact ⟨⟨isNext, small, by omega⟩, by omega⟩
    · rintro _ disk ⟨⟨other, isFailure⟩, count⟩
      exact ⟨.inr (.inr ⟨other, isFailure⟩), count.ge⟩
  refine Ends.bind ((onDisk_keeps indexed' counts).mono (fun _ _ done => done) ?_) ?_
  · rintro fault pool' ⟨other, indexed'', same⟩
    refine ⟨indexed'', .inr ⟨other, fun full => ?_, .inl (by rw [made, same])⟩⟩
    exact nomatch (LruCache.makeRoom_eq_none.mpr full).symm.trans made
  rintro newId allocated ⟨⟨isNext, small, there⟩, indexed'', same, pages, -⟩
  simp only [ends_modify_bind, ends_pure]
  have unused : newId ∉ roomy.pages := fun there =>
    absurd (indexed'.counted newId there) (by rw [isNext]; exact Nat.lt_irrefl _)
  have unlisted : newId ∉ pool.lruIds := by
    intro member
    have before := indexed.counted newId (indexed.mem_lruIds.mp member)
    omega
  obtain ⟨indexedNow, loaded⟩ := @Indexed.addFrame allocated newId indexed'' (pages ▸ unused) there
    { page := Page.new newId, pinCount := 1, dirty := true } rfl
  rw [Page.id_new small]
  refine ⟨indexedNow, rfl, unlisted, ?_⟩
  rw [loaded, same]
  exact LruCache.fetch_of_room unlisted made

/-- **`unpin`** takes a pin away. -/
theorem Indexed.unpin (indexed : pool.Indexed) (pageId : Nat) (isDirty : Bool) :
    (unpin pageId isDirty pool).Indexed ∧
      (BufferPool.unpin pageId isDirty pool).lru = pool.lru.unpin pageId := by
  unfold BufferPool.unpin LruCache.unpin
  cases found : pool.pages.lookup pageId with
  | none =>
    have unpinned := pinned_of_absent (Finmap.lookup_eq_none.mp found)
    refine ⟨indexed, ?_⟩
    unfold lru
    congr 1
    refine ((Function.update_eq_self_iff ..).mpr ?_).symm
    simp only [unpinned]
  | some frame =>
    have pins : pool.pinned pageId = frame.pinCount := by
      simp only [BufferPool.pinned, found]
    refine ⟨indexed.setFrame (Finmap.mem_of_lookup_eq_some found) _, ?_⟩
    rw [lru_setFrame, ← pins]
    rfl

/-- A change of a frame's bytes is none of the cache. -/
theorem Indexed.write (indexed : pool.Indexed) (pageId : Nat) (page : Page) :
    (write pageId page pool).Indexed ∧ (BufferPool.write pageId page pool).lru = pool.lru := by
  unfold BufferPool.write
  cases found : pool.pages.lookup pageId with
  | none => exact ⟨indexed, rfl⟩
  | some frame =>
    exact ⟨indexed.setFrame (Finmap.mem_of_lookup_eq_some found) _,
      lru_setFrame_of_pinned found rfl⟩

/-- **`flushPage`** changes nothing for the cache. -/
theorem flushPage_keeps (indexed : pool.Indexed) (pageId : Nat) :
    Ends (flushPage pageId) pool
      (fun _ pool' => pool'.Indexed ∧ pool'.lru = pool.lru)
      (fun fault pool' => OtherFault fault ∧ pool'.Indexed ∧ pool'.lru = pool.lru) := by
  unfold flushPage
  rw [ends_get_bind]
  cases found : pool.pages.lookup pageId with
  | none => exact ⟨indexed, rfl⟩
  | some frame =>
    cases dirty : frame.dirty with
    | false =>
      simp only [dirty, Bool.false_eq_true, if_false, ends_pure]
      exact ⟨indexed, trivial⟩
    | true =>
      simp only [dirty, if_true]
      refine Ends.bind (writeFrame_keeps indexed pageId frame.page) ?_
      rintro _ written ⟨-, indexed', same, pages, -⟩
      rw [ends_modify]
      have found' : written.pages.lookup pageId = some frame := pages ▸ found
      refine ⟨indexed'.setFrame (Finmap.mem_of_lookup_eq_some found') _, Eq.trans ?_ same⟩
      exact lru_setFrame_of_pinned found' (Eq.refl frame.pinCount)

theorem flushEach_keeps {pageIds : List Nat} : ∀ {pool : BufferPool}, pool.Indexed →
    Ends (flushEach pageIds) pool
      (fun _ pool' => pool'.Indexed ∧ pool'.lru = pool.lru)
      (fun fault pool' => OtherFault fault ∧ pool'.Indexed ∧ pool'.lru = pool.lru) := by
  induction pageIds with
  | nil => exact fun indexed => ⟨indexed, rfl⟩
  | cons pageId rest ih =>
    intro pool indexed
    unfold flushEach
    refine Ends.bind (flushPage_keeps indexed pageId) ?_
    rintro _ flushed ⟨indexed', same⟩
    rw [← same]
    exact ih indexed'

/-- **`flushAll`** changes nothing for the cache. -/
theorem flushAll_keeps (indexed : pool.Indexed) (order : PageOrder) :
    Ends (flushAll order) pool
      (fun _ pool' => pool'.Indexed ∧ pool'.lru = pool.lru)
      (fun fault pool' => OtherFault fault ∧ pool'.Indexed ∧ pool'.lru = pool.lru) := by
  unfold flushAll
  rw [ends_get_bind]
  exact flushEach_keeps indexed

end BufferPool

end MyDb
