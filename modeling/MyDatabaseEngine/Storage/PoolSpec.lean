/-
**What the buffer pool is for: a memory of pages with pin counts.**

`Memory` is the pool seen from outside: what every page holds, and how often it is pinned. A
`Consistent` pool shows one (`memory`), and each call of the pool does to it what it would do to an
unbounded memory (`fetchPage_ends`, `newPage_ends`, `becomes_unpin`, `becomes_write`,
`flushPage_ends`, `flushAll_ends`), whatever was evicted on the way.

The relation behind this: a page not in the pool holds what is on disk, and so does a frame that is
`Settled` (clean, hence written back). `Consistent` asks for that of the unpinned frames, since
these are the ones `evict` may drop.
-/

import MyDatabaseEngine.Storage.BufferPool

namespace MyDb

open Outcome

/-- **An unbounded memory of pages.** -/
structure Memory where
  content : Nat → Option Page
  pinned : Nat → Nat

namespace Memory

def pin (pageId : Nat) (memory : Memory) : Memory :=
  { memory with pinned := Function.update memory.pinned pageId (memory.pinned pageId + 1) }

def unpin (pageId : Nat) (memory : Memory) : Memory :=
  { memory with pinned := Function.update memory.pinned pageId (memory.pinned pageId - 1) }

def write (pageId : Nat) (page : Page) (memory : Memory) : Memory :=
  { memory with content := Function.update memory.content pageId (some page) }

end Memory

namespace BufferPool

/-! ### The list of recently used pages -/

/-- `lruMap_` and `lruList_` point at each other, and the next node's address is new. -/
structure Linked (pool : BufferPool) : Prop where
  nodes : ∀ node pageId,
    pool.lruList.lookup node = some pageId ↔ pool.lruMap.lookup pageId = some node
  fresh : ∀ node ∈ pool.lruList, node < pool.nextNode

variable {pool : BufferPool}

theorem linked_pushFront {pageId : Nat} (fresh : ∀ node ∈ pool.lruList, node < pool.nextNode)
    (absent : ∀ node, pool.lruList.lookup node ≠ some pageId)
    (others : ∀ node other, other ≠ pageId →
      (pool.lruList.lookup node = some other ↔ pool.lruMap.lookup other = some node)) :
    (pushFront pageId pool).Linked := by
  have newNode : pool.lruList.lookup pool.nextNode = none :=
    AList.lookup_eq_none.mpr fun there => Nat.lt_irrefl _ (fresh _ there)
  constructor
  · intro node other
    show (pool.lruList.insert pool.nextNode pageId).lookup node = some other ↔
      (pool.lruMap.insert pageId pool.nextNode).lookup other = some node
    by_cases same : other = pageId
    · rw [same, Finmap.lookup_insert]
      by_cases first : node = pool.nextNode
      · rw [first, AList.lookup_insert]
        exact iff_of_true rfl rfl
      · rw [AList.lookup_insert_ne first]
        exact ⟨fun found => (absent node found).elim,
          fun found => (first (Option.some.inj found).symm).elim⟩
    · rw [Finmap.lookup_insert_of_ne _ same]
      by_cases first : node = pool.nextNode
      · rw [first, AList.lookup_insert, ← others _ _ same, newNode]
        exact ⟨fun found => (same (Option.some.inj found).symm).elim, fun found => nomatch found⟩
      · rw [AList.lookup_insert_ne first]
        exact others node other same
  · intro node there
    show node < pool.nextNode + 1
    rcases (AList.mem_insert _).mp there with first | there
    · omega
    · exact Nat.lt_succ_of_lt (fresh node there)

theorem Linked.pushFront (linked : pool.Linked) {pageId : Nat} (absent : pageId ∉ pool.lruMap) :
    (pushFront pageId pool).Linked := by
  refine linked_pushFront linked.fresh ?_ fun node other _ => linked.nodes node other
  intro node found
  exact absent (Finmap.mem_of_lookup_eq_some ((linked.nodes node pageId).mp found))

theorem Linked.touchPage (linked : pool.Linked) (pageId : Nat) :
    (touchPage pageId pool).Linked := by
  unfold BufferPool.touchPage
  cases found : pool.lruMap.lookup pageId with
  | none => exact linked.pushFront (Finmap.lookup_eq_none.mp found)
  | some node =>
    have atNode := (linked.nodes node pageId).mpr found
    refine linked_pushFront ?_ ?_ ?_
    · intro other there
      exact linked.fresh other (AList.mem_erase.mp there).2
    · intro other
      by_cases same : other = node
      · rw [same, AList.lookup_erase]
        exact nofun
      · rw [AList.lookup_erase_ne same]
        intro foundOther
        have pointsBack := (linked.nodes other pageId).mp foundOther
        exact same (Option.some.inj (pointsBack.symm.trans found))
    · intro other otherPage apart
      by_cases same : other = node
      · rw [same, AList.lookup_erase, ← linked.nodes, atNode]
        exact ⟨nofun, fun found => (apart (Option.some.inj found).symm).elim⟩
      · rw [AList.lookup_erase_ne same]
        exact linked.nodes other otherPage

theorem Linked.erase (linked : pool.Linked) {node pageId : Nat}
    (found : pool.lruList.lookup node = some pageId) :
    ({ pool with
        pages := pool.pages.erase pageId
        lruMap := pool.lruMap.erase pageId
        lruList := pool.lruList.erase node } : BufferPool).Linked := by
  constructor
  · intro other otherPage
    show (pool.lruList.erase node).lookup other = some otherPage ↔
      (pool.lruMap.erase pageId).lookup otherPage = some other
    by_cases same : other = node
    · rw [same, AList.lookup_erase]
      by_cases samePage : otherPage = pageId
      · rw [samePage, Finmap.lookup_erase]
        exact ⟨nofun, nofun⟩
      · rw [Finmap.lookup_erase_ne samePage, ← linked.nodes, found]
        exact ⟨nofun, fun back => (samePage (Option.some.inj back).symm).elim⟩
    · rw [AList.lookup_erase_ne same, linked.nodes]
      by_cases samePage : otherPage = pageId
      · rw [samePage, Finmap.lookup_erase, (linked.nodes node pageId).mp found]
        exact ⟨fun back => (same (Option.some.inj back).symm).elim, nofun⟩
      · rw [Finmap.lookup_erase_ne samePage]
  · intro other there
    exact linked.fresh other (AList.mem_erase.mp there).2

/-! ### Consistent pools -/

/-- The frame holds what is on disk, unless it is marked dirty. -/
def Settled (pool : BufferPool) (pageId : Nat) : Prop :=
  ∀ frame, pool.pages.lookup pageId = some frame → frame.dirty = false →
    pool.disk.page? pageId = some frame.page

structure Consistent (pool : BufferPool) : Prop where
  usable : pool.disk.Usable
  linked : pool.Linked
  listed : ∀ pageId, pageId ∈ pool.pages ↔ pageId ∈ pool.lruMap
  onDisk : ∀ pageId ∈ pool.pages, pageId < pool.disk.pageCount
  released : ∀ pageId frame, pool.pages.lookup pageId = some frame → frame.pinCount = 0 →
    pool.Settled pageId

/-- A new pool. -/
theorem consistent_new {poolSize : Nat} {disk : DiskManager} (usable : disk.Usable) :
    ({ poolSize, disk } : BufferPool).Consistent where
  usable := usable
  linked := ⟨fun _ _ => ⟨nofun, nofun⟩, nofun⟩
  listed := fun _ => ⟨nofun, nofun⟩
  onDisk := nofun
  released := nofun

/-- What a page holds. -/
def content (pool : BufferPool) (pageId : Nat) : Option Page :=
  match pool.pages.lookup pageId with
  | some frame => some frame.page
  | none => pool.disk.page? pageId

/-- How often a page is pinned. -/
def pinned (pool : BufferPool) (pageId : Nat) : Nat :=
  match pool.pages.lookup pageId with
  | some frame => frame.pinCount
  | none => 0

/-- The file holds what the page holds. -/
def Stored (pool : BufferPool) (pageId : Nat) : Prop :=
  pool.disk.page? pageId = pool.content pageId

/-- **The memory a pool shows.** -/
def memory (pool : BufferPool) : Memory := ⟨pool.content, pool.pinned⟩

/-- **A pool after a call**: consistent, showing this memory, with no settled page unsettled. -/
structure Becomes (pool pool' : BufferPool) (memory : Memory) : Prop where
  consistent : pool'.Consistent
  shows : pool'.memory = memory
  settled : ∀ pageId, pool.Settled pageId → pool'.Settled pageId
  poolSize : pool'.poolSize = pool.poolSize
  maxPages : pool'.disk.maxPages = pool.disk.maxPages

theorem Consistent.becomes_self (ok : pool.Consistent) : Becomes pool pool pool.memory :=
  ⟨ok, rfl, fun _ settled => settled, rfl, rfl⟩

theorem Becomes.trans {pool' pool'' : BufferPool} {memory memory' : Memory}
    (first : Becomes pool pool' memory) (next : Becomes pool' pool'' memory') :
    Becomes pool pool'' memory' :=
  ⟨next.consistent, next.shows,
    fun pageId settled => next.settled pageId (first.settled pageId settled),
    next.poolSize.trans first.poolSize, next.maxPages.trans first.maxPages⟩

theorem Becomes.content {pool' : BufferPool} {memory : Memory}
    (becomes : Becomes pool pool' memory) :
    pool'.content = memory.content := by
  rw [← becomes.shows]
  rfl

theorem Becomes.pinned {pool' : BufferPool} {memory : Memory}
    (becomes : Becomes pool pool' memory) :
    pool'.pinned = memory.pinned := by
  rw [← becomes.shows]
  rfl

theorem Consistent.content_isSome (ok : pool.Consistent) {pageId : Nat} :
    (pool.content pageId).isSome ↔ pageId < pool.disk.pageCount := by
  unfold BufferPool.content
  cases found : pool.pages.lookup pageId with
  | some frame =>
    exact ⟨fun _ => ok.onDisk pageId (Finmap.mem_of_lookup_eq_some found), fun _ => rfl⟩
  | none => exact ok.usable.page?_isSome

theorem Consistent.content_pageCount (ok : pool.Consistent) :
    pool.content pool.disk.pageCount = none := by
  rw [← Option.not_isSome_iff_eq_none, ok.content_isSome]
  exact Nat.lt_irrefl _

/-- Pools with the same content have the same number of pages. -/
theorem Consistent.pageCount_eq {pool' : BufferPool} (ok : pool.Consistent) (ok' : pool'.Consistent)
    (same : pool'.content = pool.content) : pool'.disk.pageCount = pool.disk.pageCount := by
  have iff : ∀ pageId, pageId < pool'.disk.pageCount ↔ pageId < pool.disk.pageCount := by
    intro pageId
    rw [← ok'.content_isSome, ← ok.content_isSome, same]
  refine Nat.le_antisymm (Nat.not_lt.mp fun more => ?_) (Nat.not_lt.mp fun fewer => ?_)
  · exact Nat.lt_irrefl _ ((iff _).mp more)
  · exact Nat.lt_irrefl _ ((iff _).mpr fewer)

/-! ### One frame changed -/

theorem content_setFrame (pageId : Nat) (frame : Frame) :
    (setFrame pageId frame pool).content =
      Function.update pool.content pageId (some frame.page) := by
  funext other
  unfold BufferPool.content setFrame
  by_cases same : other = pageId
  · subst same
    simp only [Finmap.lookup_insert, Function.update_self]
  · simp only [Finmap.lookup_insert_of_ne _ same, Function.update_of_ne same]

theorem pinned_setFrame (pageId : Nat) (frame : Frame) :
    (setFrame pageId frame pool).pinned = Function.update pool.pinned pageId frame.pinCount := by
  funext other
  unfold BufferPool.pinned setFrame
  by_cases same : other = pageId
  · subst same
    simp only [Finmap.lookup_insert, Function.update_self]
  · simp only [Finmap.lookup_insert_of_ne _ same, Function.update_of_ne same]

theorem settled_setFrame_of_ne {pageId other : Nat} (apart : other ≠ pageId) (frame : Frame) :
    (setFrame pageId frame pool).Settled other ↔ pool.Settled other := by
  unfold Settled setFrame
  simp only [Finmap.lookup_insert_of_ne _ apart]

theorem settled_setFrame_self {pageId : Nat} {frame : Frame} :
    (setFrame pageId frame pool).Settled pageId ↔
      (frame.dirty = false → pool.disk.page? pageId = some frame.page) := by
  unfold Settled setFrame
  simp only [Finmap.lookup_insert, Option.some.injEq, forall_eq']

/-- **A frame that is in the pool is replaced.** -/
theorem Consistent.setFrame (ok : pool.Consistent) {pageId : Nat} (cached : pageId ∈ pool.pages)
    {frame : Frame}
    (released : frame.pinCount = 0 → frame.dirty = false →
      pool.disk.page? pageId = some frame.page) : (setFrame pageId frame pool).Consistent where
  usable := ok.usable
  linked := ⟨ok.linked.nodes, ok.linked.fresh⟩
  listed := by
    intro other
    show other ∈ pool.pages.insert pageId frame ↔ other ∈ pool.lruMap
    rw [Finmap.mem_insert, ← ok.listed]
    exact or_iff_right_of_imp fun same => same ▸ cached
  onDisk := by
    intro other there
    rcases Finmap.mem_insert.mp there with same | there
    · exact same ▸ ok.onDisk pageId cached
    · exact ok.onDisk other there
  released := by
    intro other otherFrame found unpinned
    by_cases same : other = pageId
    · subst same
      rw [show (BufferPool.setFrame other frame pool).pages.lookup other = some frame from
        Finmap.lookup_insert _] at found
      obtain rfl := Option.some.inj found
      exact settled_setFrame_self.mpr (released unpinned)
    · rw [settled_setFrame_of_ne same]
      rw [show (BufferPool.setFrame pageId frame pool).pages.lookup other = pool.pages.lookup other
        from Finmap.lookup_insert_of_ne _ same] at found
      exact ok.released other otherFrame found unpinned

/-- **A page that was not in the pool gets a frame**, in front of the list. -/
theorem Consistent.addFrame (ok : pool.Consistent) {pageId : Nat} (absent : pageId ∉ pool.pages)
    (onDisk : pageId < pool.disk.pageCount) {frame : Frame} (pinned : 0 < frame.pinCount) :
    (pushFront pageId (BufferPool.setFrame pageId frame pool)).Consistent where
  usable := ok.usable
  linked := by
    have kept : (BufferPool.setFrame pageId frame pool).Linked := ⟨ok.linked.nodes, ok.linked.fresh⟩
    exact kept.pushFront fun there => absent ((ok.listed pageId).mpr there)
  listed := by
    intro other
    show other ∈ pool.pages.insert pageId frame ↔ other ∈ pool.lruMap.insert pageId _
    rw [Finmap.mem_insert, Finmap.mem_insert, ok.listed]
  onDisk := by
    intro other there
    rcases Finmap.mem_insert.mp there with same | there
    · exact same ▸ onDisk
    · exact ok.onDisk other there
  released := by
    intro other otherFrame found unpinned
    by_cases same : other = pageId
    · subst same
      rw [show (pushFront other (BufferPool.setFrame other frame pool)).pages.lookup other =
        some frame from Finmap.lookup_insert _] at found
      obtain rfl := Option.some.inj found
      omega
    · rw [show (pushFront pageId (BufferPool.setFrame pageId frame pool)).pages.lookup other =
        pool.pages.lookup other from Finmap.lookup_insert_of_ne _ same] at found
      exact (settled_setFrame_of_ne same frame).mpr (ok.released other otherFrame found unpinned)

/-! ### The calls -/

/-- What `candidate` finds in nodes whose pages are all in the pool: the first that is not
pinned. -/
theorem candidate_spec {nodes : List (Σ _ : Nat, Nat)}
    (there : ∀ node ∈ nodes, node.2 ∈ pool.pages) :
    (candidate pool.pages nodes = .none ∧
      (nodes.map Sigma.snd).find? (fun pageId => pool.pinned pageId = 0) = none) ∨
      ∃ node frame, candidate pool.pages nodes = .victim node.1 node.2 frame ∧ node ∈ nodes ∧
        pool.pages.lookup node.2 = some frame ∧ frame.pinCount = 0 ∧
        (nodes.map Sigma.snd).find? (fun pageId => pool.pinned pageId = 0) = some node.2 := by
  induction nodes with
  | nil => exact .inl ⟨rfl, rfl⟩
  | cons node rest ih =>
    obtain ⟨frame, found⟩ := Finmap.mem_iff.mp (there node List.mem_cons_self)
    have pins : pool.pinned node.2 = frame.pinCount := by
      simp only [BufferPool.pinned, found]
    unfold candidate
    simp only [found, List.map_cons]
    by_cases pinned : frame.pinCount > 0
    · rw [if_pos pinned, List.find?_cons_of_neg (by rw [pins]; simpa using Nat.ne_of_gt pinned)]
      refine (ih fun other member => there other (List.mem_cons_of_mem _ member)).imp_right ?_
      rintro ⟨other, otherFrame, same, member, rest⟩
      exact ⟨other, otherFrame, same, List.mem_cons_of_mem _ member, rest⟩
    · have unpinned : frame.pinCount = 0 := Nat.eq_zero_of_not_pos pinned
      rw [if_neg pinned, List.find?_cons_of_pos (by rw [pins, unpinned]; rfl)]
      exact .inr ⟨node, frame, rfl, List.mem_cons_self, found, unpinned, rfl⟩

/-- The frames of the pool are all pinned, and there is no room for another. -/
def Full (pool : BufferPool) : Prop :=
  pool.poolSize ≤ pool.pages.keys.card ∧ ∀ pageId ∈ pool.pages, 0 < pool.pinned pageId

/-- **An unpinned settled frame is dropped without a trace.** -/
theorem Consistent.dropFrame (ok : pool.Consistent) {node pageId : Nat} {frame : Frame}
    (listed : pool.lruList.lookup node = some pageId)
    (found : pool.pages.lookup pageId = some frame) (unpinned : frame.pinCount = 0)
    (written : pool.disk.page? pageId = some frame.page) :
    Becomes pool
      { pool with
        pages := pool.pages.erase pageId
        lruMap := pool.lruMap.erase pageId
        lruList := pool.lruList.erase node }
      pool.memory := by
  have keeps : ∀ other, other ≠ pageId →
      (pool.pages.erase pageId).lookup other = pool.pages.lookup other :=
    fun other apart => Finmap.lookup_erase_ne apart
  have gone : (pool.pages.erase pageId).lookup pageId = none := Finmap.lookup_erase pageId _
  have settled : ∀ other, pool.Settled other → ∀ otherFrame,
      (pool.pages.erase pageId).lookup other = some otherFrame → otherFrame.dirty = false →
      pool.disk.page? other = some otherFrame.page := by
    intro other settled otherFrame foundOther clean
    by_cases same : other = pageId
    · subst same
      rw [gone] at foundOther
      exact nomatch foundOther
    · rw [keeps other same] at foundOther
      exact settled otherFrame foundOther clean
  refine ⟨⟨ok.usable, ok.linked.erase listed, ?_, ?_, ?_⟩, ?_, settled, rfl, rfl⟩
  · intro other
    show other ∈ pool.pages.erase pageId ↔ other ∈ pool.lruMap.erase pageId
    rw [Finmap.mem_erase, Finmap.mem_erase, ok.listed]
  · intro other there
    exact ok.onDisk other (Finmap.mem_erase.mp there).2
  · intro other otherFrame foundOther free
    by_cases same : other = pageId
    · subst same
      exact (nomatch gone.symm.trans foundOther : False).elim
    · exact settled other (ok.released other otherFrame
        ((keeps other same).symm.trans foundOther) free)
  · show Memory.mk _ _ = Memory.mk _ _
    congr 1
    · funext other
      by_cases same : other = pageId
      · subst same
        simp only [BufferPool.content, gone, found, written]
      · simp only [BufferPool.content, keeps other same]
    · funext other
      by_cases same : other = pageId
      · subst same
        simp only [BufferPool.pinned, gone, found, unpinned]
      · simp only [BufferPool.pinned, keeps other same]

/-- **A frame's bytes are written back**: nothing changes that can be seen. -/
theorem Consistent.writeBack (ok : pool.Consistent) {pageId : Nat} {frame : Frame}
    (found : pool.pages.lookup pageId = some frame) {disk : DiskManager} (usable : disk.Usable)
    (written : disk.page? = Function.update pool.disk.page? pageId (some frame.page))
    (count : disk.pageCount = max pool.disk.pageCount (pageId + 1))
    (max : disk.maxPages = pool.disk.maxPages) :
    Becomes pool { pool with disk } pool.memory := by
  have settled : ∀ other, pool.Settled other → ({ pool with disk } : BufferPool).Settled other := by
    intro other settled otherFrame foundOther clean
    show disk.page? other = some otherFrame.page
    rw [written]
    by_cases same : other = pageId
    · subst same
      rw [Function.update_self, Option.some.inj (found.symm.trans foundOther)]
    · rw [Function.update_of_ne same]
      exact settled otherFrame foundOther clean
  refine ⟨⟨usable, ⟨ok.linked.nodes, ok.linked.fresh⟩, ok.listed, ?_, ?_⟩, ?_, settled, rfl, max⟩
  · intro other there
    have before := ok.onDisk other there
    show other < disk.pageCount
    omega
  · intro other otherFrame foundOther free
    exact settled other (ok.released other otherFrame foundOther free)
  · show Memory.mk _ _ = Memory.mk _ _
    congr 1
    funext other
    unfold BufferPool.content
    cases foundOther : pool.pages.lookup other with
    | some _ => rfl
    | none =>
      show disk.page? other = pool.disk.page? other
      rw [written, Function.update_of_ne]
      rintro rfl
      exact nomatch found.symm.trans foundOther

/-- **Writing the frame of a page to disk does not fail**, and shows nothing. -/
theorem writeFrame_ends (ok : pool.Consistent) {pageId : Nat} {frame : Frame}
    (found : pool.pages.lookup pageId = some frame) :
    Ends (onDisk (DiskManager.writePage pageId frame.page)) pool
      (fun _ pool' => Becomes pool pool' pool.memory ∧ pool'.pages = pool.pages ∧
        pool'.lruList = pool.lruList ∧ pool'.disk.page? pageId = some frame.page ∧
        ∀ other, pool.Stored other → pool'.Stored other)
      (fun _ _ => False) := by
  have there := ok.onDisk pageId (Finmap.mem_of_lookup_eq_some found)
  refine (DiskManager.writePage_ends ok.usable frame.page there.le).onPart _ _ ?_ ?_
  · rintro _ disk ⟨usable, written, count, max⟩
    have becomes := ok.writeBack found usable written count max
    have onDisk : disk.page? pageId = some frame.page := by
      rw [written, Function.update_self]
    refine ⟨becomes, rfl, rfl, onDisk, fun other stored => ?_⟩
    unfold Stored
    rw [becomes.content]
    by_cases same : other = pageId
    · rw [same]
      refine onDisk.trans ?_
      show some frame.page = pool.content pageId
      unfold BufferPool.content
      rw [found]
    · show disk.page? other = pool.content other
      rw [written, Function.update_of_ne same]
      exact stored
  · rintro _ _ ⟨_, full, _⟩
    exact absurd (Nat.lt_of_lt_of_le there ok.usable.fits) (Nat.not_lt.mpr full)

/-- Every node's page is in the pool. -/
theorem Consistent.cached_of_mem_lruList (ok : pool.Consistent) {node : Σ _ : Nat, Nat}
    (member : node ∈ pool.lruList.entries) : node.2 ∈ pool.pages := by
  rw [ok.listed]
  exact Finmap.mem_of_lookup_eq_some ((ok.linked.nodes _ _).mp (AList.mem_lookup_iff.mpr member))

/-- **`evict`** shows nothing; it finds no page only when all are pinned. -/
theorem evict_ends (ok : pool.Consistent) :
    Ends evict pool
      (fun evicted pool' => Becomes pool pool' pool.memory ∧
        (∀ pageId ∈ pool'.pages, pageId ∈ pool.pages) ∧
        (evicted = false → ∀ pageId ∈ pool.pages, 0 < pool.pinned pageId))
      (fun _ _ => False) := by
  unfold evict
  rw [ends_get_bind]
  have cached : ∀ node ∈ pool.lruList.entries.reverse, node.2 ∈ pool.pages :=
    fun node member => ok.cached_of_mem_lruList (List.mem_reverse.mp member)
  rcases candidate_spec cached with
    ⟨noVictim, none⟩ | ⟨node, frame, victim, member, found, unpinned, -⟩
  · simp only [noVictim, ends_pure]
    refine ⟨ok.becomes_self, fun _ there => there, fun _ pageId there => ?_⟩
    obtain ⟨node, points⟩ := Finmap.mem_iff.mp ((ok.listed pageId).mp there)
    have listed := AList.mem_lookup_iff.mp ((ok.linked.nodes node pageId).mpr points)
    have among : pageId ∈ pool.lruList.entries.reverse.map Sigma.snd :=
      List.mem_map.mpr ⟨⟨node, pageId⟩, List.mem_reverse.mpr listed, rfl⟩
    refine Nat.pos_of_ne_zero fun unpinned => List.find?_eq_none.mp none pageId among ?_
    exact decide_eq_true unpinned
  · have listed := AList.mem_lookup_iff.mpr (List.mem_reverse.mp member)
    simp only [victim]
    have written : Ends (BufferPool.writeBack node.2 frame) pool
        (fun _ pool' => Becomes pool pool' pool.memory ∧ pool'.pages = pool.pages ∧
          pool'.lruList = pool.lruList ∧ pool'.disk.page? node.2 = some frame.page ∧
          ∀ other, pool.Stored other → pool'.Stored other)
        (fun _ _ => False) := by
      unfold BufferPool.writeBack
      cases dirty : frame.dirty with
      | true => exact writeFrame_ends ok found
      | false =>
        exact ⟨ok.becomes_self, rfl, rfl, ok.released node.2 frame found unpinned frame found dirty,
          fun _ stored => stored⟩
    refine Ends.bind written ?_
    rintro _ pool' ⟨becomes, pages, lruList, onDisk, -⟩
    rw [ends_modify_bind, ends_pure]
    refine ⟨becomes.trans ?_, fun other there => pages ▸ (Finmap.mem_erase.mp there).2,
      fun none => absurd none Bool.true_eq_false.mp⟩
    rw [← becomes.shows]
    exact becomes.consistent.dropFrame (lruList ▸ listed) (pages ▸ found) unpinned onDisk

/-- **`makeRoom`** shows nothing, and fails only on a full pool. -/
theorem makeRoom_ends (ok : pool.Consistent) :
    Ends makeRoom pool
      (fun _ pool' => Becomes pool pool' pool.memory ∧ ∀ pageId ∈ pool'.pages, pageId ∈ pool.pages)
      (fun fault pool' => fault = poolFull ∧ pool.Full ∧ Becomes pool pool' pool.memory) := by
  unfold makeRoom
  rw [ends_get_bind]
  by_cases room : pool.pages.keys.card ≥ pool.poolSize
  · rw [if_pos room]
    refine Ends.bind ((evict_ends ok).mono (fun _ _ done => done) nofun) ?_
    rintro evicted pool' ⟨becomes, fewer, all⟩
    cases evicted with
    | true => exact ⟨becomes, fewer⟩
    | false => exact ⟨rfl, ⟨room, all rfl⟩, becomes⟩
  · rw [if_neg room, ends_pure]
    exact ⟨ok.becomes_self, fun _ there => there⟩

/-- `touchPage` only reorders the list. -/
theorem Consistent.touchPage (ok : pool.Consistent) {pageId : Nat} (cached : pageId ∈ pool.pages) :
    Becomes pool (touchPage pageId pool) pool.memory ∧
      (BufferPool.touchPage pageId pool).pages = pool.pages := by
  have linked := ok.linked.touchPage pageId
  have same : (BufferPool.touchPage pageId pool).pages = pool.pages ∧
      (BufferPool.touchPage pageId pool).disk = pool.disk ∧
      (BufferPool.touchPage pageId pool).poolSize = pool.poolSize ∧
      (BufferPool.touchPage pageId pool).lruMap = pool.lruMap.insert pageId pool.nextNode := by
    unfold BufferPool.touchPage
    cases pool.lruMap.lookup pageId <;> exact ⟨rfl, rfl, rfl, rfl⟩
  obtain ⟨pages, disk, poolSize, lruMap⟩ := same
  have settled : ∀ other, pool.Settled other →
      (BufferPool.touchPage pageId pool).Settled other := by
    unfold Settled
    rw [pages, disk]
    exact fun _ settled => settled
  refine ⟨⟨⟨disk ▸ ok.usable, linked, ?_, ?_, ?_⟩, ?_, settled, poolSize, by rw [disk]⟩, pages⟩
  · intro other
    rw [pages, lruMap, Finmap.mem_insert, ok.listed]
    exact (or_iff_right_of_imp fun same => same ▸ (ok.listed pageId).mp cached).symm
  · rw [pages, disk]
    exact ok.onDisk
  · intro other frame found
    rw [pages] at found
    exact fun free => settled other (ok.released other frame found free)
  · unfold BufferPool.memory BufferPool.content BufferPool.pinned
    rw [pages, disk]

/-- A change of a frame that is in the pool. -/
theorem Consistent.becomes_setFrame (ok : pool.Consistent) {pageId : Nat} {old : Frame}
    (frame : Frame) (found : pool.pages.lookup pageId = some old)
    (released : frame.pinCount = 0 → frame.dirty = false →
      pool.disk.page? pageId = some frame.page)
    (settled : pool.Settled pageId → frame.dirty = false →
      pool.disk.page? pageId = some frame.page) :
    Becomes pool (BufferPool.setFrame pageId frame pool)
      ⟨Function.update pool.content pageId (some frame.page),
        Function.update pool.pinned pageId frame.pinCount⟩ := by
  refine ⟨ok.setFrame (Finmap.mem_of_lookup_eq_some found) released, ?_, ?_, rfl, rfl⟩
  · unfold BufferPool.memory
    rw [content_setFrame, pinned_setFrame]
  · intro other before
    by_cases same : other = pageId
    · rw [same, settled_setFrame_self]
      exact settled (same ▸ before)
    · exact (settled_setFrame_of_ne same _).mpr before

/-- A pinned frame for a page that was not in the pool. -/
theorem Consistent.becomes_addFrame (ok : pool.Consistent) {pageId : Nat} (frame : Frame)
    (absent : pageId ∉ pool.pages) (onDisk : pageId < pool.disk.pageCount)
    (pinned : 0 < frame.pinCount)
    (settled : frame.dirty = false → pool.disk.page? pageId = some frame.page) :
    Becomes pool (pushFront pageId (BufferPool.setFrame pageId frame pool))
      ⟨Function.update pool.content pageId (some frame.page),
        Function.update pool.pinned pageId frame.pinCount⟩ := by
  refine ⟨ok.addFrame absent onDisk pinned, ?_, ?_, rfl, rfl⟩
  · show BufferPool.memory (BufferPool.setFrame pageId frame pool) = _
    unfold BufferPool.memory
    rw [content_setFrame, pinned_setFrame]
  · intro other before
    show (BufferPool.setFrame pageId frame pool).Settled other
    by_cases same : other = pageId
    · rw [same, settled_setFrame_self]
      exact settled
    · exact (settled_setFrame_of_ne same _).mpr before

/-- Another state of the disk manager over the same pages. -/
theorem Consistent.becomes_disk (ok : pool.Consistent) {disk : DiskManager} (usable : disk.Usable)
    (same : disk.page? = pool.disk.page?) (count : disk.pageCount = pool.disk.pageCount)
    (max : disk.maxPages = pool.disk.maxPages) : Becomes pool { pool with disk } pool.memory := by
  have settled : ∀ other, pool.Settled other → ({ pool with disk } : BufferPool).Settled other := by
    intro other settled frame found clean
    show disk.page? other = some frame.page
    rw [same]
    exact settled frame found clean
  refine ⟨⟨usable, ⟨ok.linked.nodes, ok.linked.fresh⟩, ok.listed, ?_, ?_⟩, ?_, settled, rfl, max⟩
  · intro other there
    show other < disk.pageCount
    rw [count]
    exact ok.onDisk other there
  · exact fun other frame found free => settled other (ok.released other frame found free)
  · unfold BufferPool.memory BufferPool.content BufferPool.pinned
    rw [same]

theorem pinned_of_absent {pageId : Nat} (absent : pageId ∉ pool.pages) :
    pool.pinned pageId = 0 := by
  unfold BufferPool.pinned
  rw [Finmap.lookup_eq_none.mpr absent]

theorem content_of_absent {pageId : Nat} (absent : pageId ∉ pool.pages) :
    pool.content pageId = pool.disk.page? pageId := by
  unfold BufferPool.content
  rw [Finmap.lookup_eq_none.mpr absent]

theorem readPage_ends (ok : pool.Consistent) {pageId : Nat} (absent : pageId ∉ pool.pages) :
    Ends (onDisk (DiskManager.readPage pageId)) pool
      (fun page pool' => pool.content pageId = some page ∧ pageId ∉ pool'.pages ∧
        pageId < pool'.disk.pageCount ∧ pool'.disk.page? pageId = some page ∧
        Becomes pool pool' pool.memory)
      (fun fault pool' => fault = DiskManager.noSuchPage pageId ∧ pool.content pageId = none ∧
        Becomes pool pool' pool.memory) := by
  have onDisk := content_of_absent absent
  refine (DiskManager.readPage_ends ok.usable pageId).onPart _ _ ?_ ?_
  · rintro page disk ⟨holds, usable, same, count, max⟩
    refine ⟨onDisk.trans holds, absent, ?_, ?_, ok.becomes_disk usable same count max⟩
    · show pageId < disk.pageCount
      rw [count, ← ok.usable.page?_isSome, holds]
      rfl
    · show disk.page? pageId = some page
      rw [same]
      exact holds
  · rintro _ disk ⟨rfl, missing, rfl⟩
    exact ⟨rfl, onDisk.trans missing, ok.becomes_self⟩

theorem allocatePage_ends (ok : pool.Consistent) :
    Ends (onDisk DiskManager.allocatePage) pool
      (fun newId pool' => newId = pool.disk.pageCount ∧ newId < pool.disk.maxPages ∧
        newId ∉ pool'.pages ∧ newId < pool'.disk.pageCount ∧
        Becomes pool pool' (pool.memory.write newId (Page.new newId)))
      (fun fault pool' => fault = DiskManager.failedToWrite pool.disk.maxPages ∧
        pool.disk.pageCount = pool.disk.maxPages ∧ pool'.disk.pageCount = pool.disk.maxPages ∧
        pool'.disk.file.fail = true) := by
  refine (DiskManager.allocatePage_ends ok.usable).onPart _ _ ?_ fun _ _ failed => failed
  rintro newId disk ⟨rfl, room, usable, grown, count, max⟩
  have absent : pool.disk.pageCount ∉ pool.pages :=
    fun there => Nat.lt_irrefl _ (ok.onDisk _ there)
  have settled : ∀ other, pool.Settled other → ({ pool with disk } : BufferPool).Settled other := by
    intro other settled frame found clean
    have apart : other ≠ pool.disk.pageCount :=
      fun same => absent (same ▸ Finmap.mem_of_lookup_eq_some found)
    show disk.page? other = some frame.page
    rw [grown, Function.update_of_ne apart]
    exact settled frame found clean
  refine ⟨rfl, room, absent, ?_,
    ⟨⟨usable, ⟨ok.linked.nodes, ok.linked.fresh⟩, ok.listed, ?_, ?_⟩, ?_, settled, rfl, max⟩⟩
  · show pool.disk.pageCount < disk.pageCount
    omega
  · intro other there
    have before := ok.onDisk other there
    show other < disk.pageCount
    omega
  · exact fun other frame found free => settled other (ok.released other frame found free)
  · show Memory.mk _ _ = Memory.mk _ _
    congr 1
    funext other
    by_cases same : other = pool.disk.pageCount
    · subst same
      have onDisk := @content_of_absent { pool with disk } _ absent
      rw [onDisk, grown]
      simp only [Function.update_self]
    · rw [Function.update_of_ne same]
      show _ = pool.content other
      unfold BufferPool.content
      cases pool.pages.lookup other with
      | some _ => rfl
      | none =>
        show disk.page? other = pool.disk.page? other
        rw [grown, Function.update_of_ne same]

/-- **`fetchPage` returns what the page holds**, and pins it. -/
theorem fetchPage_ends (ok : pool.Consistent) (pageId : Nat) :
    Ends (fetchPage pageId) pool
      (fun page pool' => pool.content pageId = some page ∧
        Becomes pool pool' (pool.memory.pin pageId))
      (fun fault pool' => (fault = poolFull ∧ pool.Full ∨
          fault = DiskManager.noSuchPage pageId ∧ pool.content pageId = none) ∧
        Becomes pool pool' pool.memory) := by
  unfold fetchPage
  rw [ends_get_bind]
  cases found : pool.pages.lookup pageId with
  | some frame =>
    obtain ⟨touched, pages⟩ := ok.touchPage (Finmap.mem_of_lookup_eq_some found)
    have found' : (BufferPool.touchPage pageId pool).pages.lookup pageId = some frame := by
      rw [pages]
      exact found
    have holds : pool.content pageId = some frame.page := by
      simp only [BufferPool.content, found]
    simp only [ends_modify_bind, ends_pure]
    refine ⟨holds, touched.trans ?_⟩
    have pinned := touched.consistent.becomes_setFrame
      { frame with pinCount := frame.pinCount + 1 } found'
        (fun zero => absurd zero (Nat.succ_ne_zero _))
      fun settled => settled frame found'
    rw [touched.content, touched.pinned] at pinned
    refine (congrArg (Becomes _ _) ?_).mp pinned
    unfold Memory.pin BufferPool.memory
    congr 1
    · exact (Function.update_eq_self_iff ..).mpr holds.symm
    · simp only [BufferPool.pinned, found]
  | none =>
    have absent := Finmap.lookup_eq_none.mp found
    refine Ends.bind ((makeRoom_ends ok).mono (fun _ _ done => done) ?_) ?_
    · rintro fault pool' ⟨rfl, full, becomes⟩
      exact ⟨.inl ⟨rfl, full⟩, becomes⟩
    rintro _ roomy ⟨becomes, fewer⟩
    have content' : roomy.content = pool.content := becomes.content
    have pinned' : roomy.pinned = pool.pinned := becomes.pinned
    refine Ends.bind
      ((readPage_ends becomes.consistent fun there => absent (fewer pageId there)).mono
      (fun _ _ done => done) ?_) ?_
    · rintro fault pool' ⟨rfl, missing, becomes'⟩
      exact ⟨.inr ⟨rfl, content' ▸ missing⟩, becomes.shows ▸ becomes.trans becomes'⟩
    rintro page read ⟨holds, absent', counted, onDisk, becomes'⟩
    simp only [ends_modify_bind, ends_pure]
    refine ⟨content' ▸ holds, becomes.trans (becomes'.trans ?_)⟩
    have added := becomes'.consistent.becomes_addFrame { page, pinCount := 1 } absent'
      counted Nat.one_pos fun _ => onDisk
    refine (congrArg (Becomes _ _) ?_).mp added
    rw [becomes'.content, becomes'.pinned]
    unfold Memory.pin BufferPool.memory
    congr 1
    · show Function.update roomy.content _ _ = pool.content
      rw [content']
      exact (Function.update_eq_self_iff ..).mpr (content' ▸ holds).symm
    · show Function.update roomy.pinned pageId 1 =
        Function.update pool.pinned pageId (pool.pinned pageId + 1)
      rw [pinned', pinned_of_absent absent]

/-- **`newPage` adds a page at the end of the file**, pinned. -/
theorem newPage_ends (ok : pool.Consistent) :
    Ends newPage pool
      (fun page pool' => page = Page.new pool.disk.pageCount ∧ page.id = pool.disk.pageCount ∧
        pool.disk.pageCount < pool.disk.maxPages ∧
        Becomes pool pool' ((pool.memory.write pool.disk.pageCount page).pin pool.disk.pageCount))
      (fun fault pool' => fault = poolFull ∧ pool.Full ∧ Becomes pool pool' pool.memory ∨
        fault = DiskManager.failedToWrite pool.disk.maxPages ∧ pool.disk.pageCount =
          pool.disk.maxPages ∧
          pool'.disk.pageCount = pool.disk.maxPages ∧ pool'.disk.file.fail = true) := by
  unfold newPage
  refine Ends.bind ((makeRoom_ends ok).mono (fun _ _ done => done) fun _ _ => .inl) ?_
  rintro _ roomy ⟨becomes, -⟩
  have content' : roomy.content = pool.content := becomes.content
  have pinned' : roomy.pinned = pool.pinned := becomes.pinned
  have count' := ok.pageCount_eq becomes.consistent content'
  refine Ends.bind ((allocatePage_ends becomes.consistent).mono (fun _ _ done => done) ?_) ?_
  · rintro fault pool' ⟨rfl, full, full', failed⟩
    rw [becomes.maxPages] at full full' ⊢
    exact .inr ⟨rfl, count'.symm.trans full, full', failed⟩
  rintro newId allocated ⟨isNext, room, absent, counted, becomes'⟩
  simp only [ends_modify_bind, ends_pure]
  have small : newId < 2 ^ 32 := lt_trans room roomy.disk.maxPages_lt
  rw [becomes.maxPages] at room
  rw [← count', ← isNext]
  refine ⟨rfl, Page.id_new small, room, becomes.trans (becomes'.trans ?_)⟩
  have added := becomes'.consistent.becomes_addFrame
    { page := Page.new newId, pinCount := 1, dirty := true } absent counted Nat.one_pos
    fun clean => absurd clean Bool.true_eq_false.mp
  refine (congrArg (Becomes _ _) ?_).mp added
  rw [becomes'.content, becomes'.pinned]
  have unpinned : roomy.pinned newId = 0 := by
    have same := congrFun becomes'.pinned newId
    rw [pinned_of_absent absent] at same
    exact same.symm
  unfold Memory.pin Memory.write BufferPool.memory
  congr 1
  · show Function.update (Function.update roomy.content _ _) _ _ = Function.update pool.content _ _
    rw [Function.update_idem, content']
  · show Function.update roomy.pinned newId 1 = Function.update pool.pinned newId
      (pool.pinned newId + 1)
    rw [← pinned', unpinned]

/-- **`unpin`** releases the page once. A page whose last pin goes is settled, or marked dirty
now. -/
theorem becomes_unpin (ok : pool.Consistent) {pageId : Nat} {isDirty : Bool}
    (settled : pool.pinned pageId ≤ 1 → isDirty = false → pool.Settled pageId) :
    Becomes pool (unpin pageId isDirty pool) (pool.memory.unpin pageId) ∧
      (isDirty = true → (unpin pageId isDirty pool).Settled pageId) := by
  unfold BufferPool.unpin
  cases found : pool.pages.lookup pageId with
  | none =>
    have absent := Finmap.lookup_eq_none.mp found
    refine ⟨(congrArg (Becomes _ _) ?_).mp ok.becomes_self, fun _ frame there => ?_⟩
    · unfold Memory.unpin BufferPool.memory
      congr 1
      refine ((Function.update_eq_self_iff ..).mpr ?_).symm
      simp only [pinned_of_absent absent]
    · exact nomatch found.symm.trans there
  | some frame =>
    have pinned : pool.pinned pageId = frame.pinCount := by
      simp only [BufferPool.pinned, found]
    have holds : pool.content pageId = some frame.page := by
      simp only [BufferPool.content, found]
    have onDisk : pool.Settled pageId → (frame.dirty || isDirty) = false →
        pool.disk.page? pageId = some frame.page := by
      intro settled clean
      simp only [Bool.or_eq_false_iff] at clean
      exact settled frame found clean.1
    refine ⟨(congrArg (Becomes _ _) ?_).mp (ok.becomes_setFrame
      { frame with pinCount := frame.pinCount - 1, dirty := frame.dirty || isDirty }
      found ?_ onDisk), ?_⟩
    · show Memory.mk _ _ =
        Memory.mk pool.content (Function.update pool.pinned pageId (pool.pinned pageId - 1))
      rw [pinned]
      congr 1
      exact (Function.update_eq_self_iff ..).mpr holds.symm
    · intro last clean
      refine onDisk (settled ?_ (Bool.or_eq_false_iff.mp clean).2) clean
      rw [pinned]
      exact Nat.le_of_sub_eq_zero last
    · rintro rfl
      rw [settled_setFrame_self]
      simp only [Bool.or_true]
      exact nofun

/-- **A pinned page's bytes are changed.** The page may be unsettled now; the others stay. -/
theorem consistent_write (ok : pool.Consistent) {pageId : Nat} (page : Page)
    (pinned : 0 < pool.pinned pageId) :
    (write pageId page pool).Consistent ∧
      (write pageId page pool).memory = pool.memory.write pageId page ∧
      (∀ other, other ≠ pageId → pool.Settled other → (write pageId page pool).Settled other) ∧
      (write pageId page pool).poolSize = pool.poolSize ∧
      (write pageId page pool).disk = pool.disk := by
  unfold BufferPool.pinned at pinned
  unfold BufferPool.write
  cases found : pool.pages.lookup pageId with
  | none => simp only [found, Nat.lt_irrefl] at pinned
  | some frame =>
    simp only [found] at pinned
    refine ⟨ok.setFrame (Finmap.mem_of_lookup_eq_some found) fun free => ?_, ?_, ?_, rfl, rfl⟩
    · exact absurd free (Nat.pos_iff_ne_zero.mp pinned)
    · unfold Memory.write BufferPool.memory
      rw [content_setFrame, pinned_setFrame]
      congr 1
      refine (Function.update_eq_self_iff ..).mpr ?_
      simp only [BufferPool.pinned, found]
    · exact fun other apart settled => (settled_setFrame_of_ne apart _).mpr settled

/-- **`flushPage`** shows nothing, and stores a settled page. -/
theorem flushPage_ends (ok : pool.Consistent) (pageId : Nat) :
    Ends (flushPage pageId) pool
      (fun _ pool' => Becomes pool pool' pool.memory ∧ (pool.Settled pageId → pool'.Stored pageId) ∧
        ∀ other, pool.Stored other → pool'.Stored other)
      (fun _ _ => False) := by
  unfold flushPage
  rw [ends_get_bind]
  cases found : pool.pages.lookup pageId with
  | none =>
    have absent := Finmap.lookup_eq_none.mp found
    exact ⟨ok.becomes_self, fun _ => (content_of_absent absent).symm, fun _ stored => stored⟩
  | some frame =>
    have holds : pool.content pageId = some frame.page := by
      simp only [BufferPool.content, found]
    cases dirty : frame.dirty with
    | false =>
      simp only [dirty, Bool.false_eq_true, if_false, ends_pure]
      exact ⟨ok.becomes_self, fun settled => (settled frame found dirty).trans holds.symm,
        fun _ stored => stored⟩
    | true =>
      simp only [dirty, if_true]
      refine Ends.bind (writeFrame_ends ok found) ?_
      rintro _ written ⟨becomes, pages, -, onDisk, stored⟩
      rw [ends_modify]
      have cleaned := becomes.consistent.becomes_setFrame { frame with dirty := false }
        (pages ▸ found) (fun _ _ => onDisk) fun _ _ => onDisk
      have same : (⟨Function.update written.content pageId (some frame.page),
          Function.update written.pinned pageId frame.pinCount⟩ : Memory) = pool.memory := by
        rw [becomes.content, becomes.pinned]
        unfold BufferPool.memory
        congr 1
        · exact (Function.update_eq_self_iff ..).mpr holds.symm
        · refine (Function.update_eq_self_iff ..).mpr ?_
          simp only [BufferPool.pinned, found]
      have after := becomes.trans (same ▸ cleaned)
      have keeps : ∀ other, written.Stored other →
          (setFrame pageId { frame with dirty := false } written).Stored other := by
        intro other before
        unfold Stored
        rw [after.content, ← becomes.content]
        exact before
      refine ⟨after, fun _ => keeps pageId ?_,
        fun other before => keeps other (stored other before)⟩
      unfold Stored
      rw [onDisk, becomes.content]
      exact holds.symm

theorem flushEach_ends {pageIds : List Nat} :
    ∀ {pool : BufferPool}, pool.Consistent →
      Ends (flushEach pageIds) pool
        (fun _ pool' => Becomes pool pool' pool.memory ∧
          (∀ pageId ∈ pageIds, pool.Settled pageId → pool'.Stored pageId) ∧
          ∀ other, pool.Stored other → pool'.Stored other)
        (fun _ _ => False) := by
  induction pageIds with
  | nil => exact fun ok => ⟨ok.becomes_self, nofun, fun _ stored => stored⟩
  | cons pageId rest ih =>
    intro pool ok
    unfold flushEach
    refine Ends.bind (flushPage_ends ok pageId) ?_
    rintro _ flushed ⟨becomes, now, stored⟩
    refine (ih becomes.consistent).mono ?_ fun _ _ never => never
    rintro _ pool' ⟨becomes', later, stored'⟩
    refine ⟨becomes.trans (becomes.shows ▸ becomes'), ?_, fun other before =>
      stored' other (stored other before)⟩
    intro other member settled
    rcases List.mem_cons.mp member with rfl | member
    · exact stored' _ (now settled)
    · exact later other member (becomes.settled other settled)

/-- **`flushAll`** shows nothing, and stores every settled page. -/
theorem flushAll_ends (ok : pool.Consistent) (order : PageOrder) :
    Ends (flushAll order) pool
      (fun _ pool' => Becomes pool pool' pool.memory ∧
        ∀ pageId, pool.Settled pageId → pool'.Stored pageId)
      (fun _ _ => False) := by
  unfold flushAll
  rw [ends_get_bind]
  refine (flushEach_ends ok).mono ?_ fun _ _ never => never
  rintro _ pool' ⟨becomes, now, stored⟩
  refine ⟨becomes, fun pageId settled => ?_⟩
  by_cases cached : pageId ∈ pool.pages
  · refine now pageId ?_ settled
    rw [← Multiset.mem_coe, order.listing]
    exact Finmap.mem_keys.mpr cached
  · exact stored pageId (content_of_absent cached).symm

end BufferPool

end MyDb
