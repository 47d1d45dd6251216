/-
**What the calls of a pool write to the file.**

A call may write pages to the file that have nothing to do with what it is for: it may have to make
room for a page first. But what it writes is what the page holds at that moment (`WritesOnly`),
whether it returns or throws. So the file never has anything else on a page than something the page
held once.

Each call has its lemma, from `writeFrame` up: a chain of calls writes only what each of them does
(`WritesOnly.trans`), because none of them changes what a page holds before it is written. Changing
a page in memory writes nothing. Nothing is said here about when a page is written; the module on
crashes does that.
-/

import MyDatabaseEngine.Storage.PoolSpec

namespace MyDb

open Outcome

namespace BufferPool

/-- **Each page of the file is as it was**, or holds this content. -/
def WritesOnly (pool pool' : BufferPool) (content : Nat → Option Page) : Prop :=
  ∀ pageId, pool'.disk.page? pageId = pool.disk.page? pageId ∨
    pool'.disk.page? pageId = content pageId

variable {pool pool' pool'' : BufferPool} {content : Nat → Option Page} {pageId : Nat}
  {frame : Frame} {page : Page}

theorem writesOnly_of_same (same : pool'.disk.page? = pool.disk.page?) :
    WritesOnly pool pool' content :=
  fun pageId => .inl (congrFun same pageId)

theorem WritesOnly.trans (first : WritesOnly pool pool' content)
    (next : WritesOnly pool' pool'' content) :
    WritesOnly pool pool'' content := by
  intro pageId
  rcases next pageId with same | written
  · rw [same]
    exact first pageId
  · exact .inr written

theorem disk_touchPage (pageId : Nat) : (touchPage pageId pool).disk = pool.disk := by
  unfold touchPage
  cases pool.lruMap.lookup pageId <;> rfl

theorem disk_unpin (pageId : Nat) (isDirty : Bool) :
    (unpin pageId isDirty pool).disk = pool.disk := by
  unfold unpin
  cases pool.pages.lookup pageId <;> rfl

theorem disk_write (pageId : Nat) (page : Page) : (write pageId page pool).disk = pool.disk := by
  unfold write
  cases pool.pages.lookup pageId <;> rfl

/-- A frame goes to its page. -/
theorem writeFrame_writes (ok : pool.Consistent) (found : pool.pages.lookup pageId = some frame) :
    Ends (onDisk (DiskManager.writePage pageId frame.page)) pool
      (fun _ pool' => WritesOnly pool pool' pool.content) (fun _ _ => False) := by
  have there := ok.onDisk pageId (Finmap.mem_of_lookup_eq_some found)
  refine (DiskManager.writePage_ends ok.usable frame.page there.le).onPart _ _ ?_ ?_
  · rintro _ disk ⟨_, written, _⟩ other
    show disk.page? other = _ ∨ disk.page? other = _
    rw [written]
    by_cases same : other = pageId
    · rw [same, Function.update_self]
      refine .inr ?_
      unfold BufferPool.content
      rw [found]
    · rw [Function.update_of_ne same]
      exact .inl rfl
  · rintro _ _ ⟨_, full, _⟩
    exact absurd (Nat.lt_of_lt_of_le there ok.usable.fits) (Nat.not_lt.mpr full)

/-- **`evict`** writes the frame it drops. -/
theorem evict_writes (ok : pool.Consistent) :
    Ends evict pool (fun _ pool' => WritesOnly pool pool' pool.content) (fun _ _ => False) := by
  unfold evict
  rw [ends_get_bind]
  have cached : ∀ node ∈ pool.lruList.entries.reverse, node.2 ∈ pool.pages :=
    fun node member => ok.cached_of_mem_lruList (List.mem_reverse.mp member)
  rcases candidate_spec cached with ⟨noVictim, -⟩ | ⟨node, frame, victim, -, found, -, -⟩
  · simp only [noVictim, ends_pure]
    exact writesOnly_of_same rfl
  · simp only [victim]
    have written : Ends (BufferPool.writeBack node.2 frame) pool
        (fun _ pool' => WritesOnly pool pool' pool.content) (fun _ _ => False) := by
      unfold BufferPool.writeBack
      cases frame.dirty with
      | true => exact writeFrame_writes ok found
      | false => exact writesOnly_of_same rfl
    refine Ends.bind written ?_
    intro _ pool' writes
    rw [ends_modify_bind, ends_pure]
    exact writes

theorem makeRoom_writes (ok : pool.Consistent) :
    Ends makeRoom pool (fun _ pool' => WritesOnly pool pool' pool.content)
      (fun _ pool' => WritesOnly pool pool' pool.content) := by
  unfold makeRoom
  rw [ends_get_bind]
  by_cases room : pool.pages.keys.card ≥ pool.poolSize
  · rw [if_pos room]
    refine Ends.bind ((evict_writes ok).mono (fun _ _ done => done) fun _ _ never => never.elim) ?_
    intro evicted pool' writes
    cases evicted with
    | true => exact writes
    | false => exact writes
  · rw [if_neg room, ends_pure]
    exact writesOnly_of_same rfl

/-- **`fetchPage`** writes nothing but what makes room. -/
theorem fetchPage_writes (ok : pool.Consistent) (pageId : Nat) :
    Ends (fetchPage pageId) pool (fun _ pool' => WritesOnly pool pool' pool.content)
      (fun _ pool' => WritesOnly pool pool' pool.content) := by
  unfold fetchPage
  rw [ends_get_bind]
  cases pool.pages.lookup pageId with
  | some frame =>
    simp only [ends_modify_bind, ends_pure]
    refine writesOnly_of_same ?_
    show (touchPage pageId pool).disk.page? = _
    rw [disk_touchPage]
  | none =>
    refine Ends.bind (((makeRoom_writes ok).and (makeRoom_ends ok)).mono (fun _ _ done => done)
      fun _ _ failed => failed.1) ?_
    rintro _ roomy ⟨writes, becomes, -⟩
    have reads : Ends (onDisk (DiskManager.readPage pageId)) roomy
        (fun _ pool' => WritesOnly pool pool' pool.content)
        (fun _ pool' => WritesOnly pool pool' pool.content) := by
      refine (DiskManager.readPage_ends becomes.consistent.usable pageId).onPart _ _ ?_ ?_
      · rintro _ disk ⟨-, -, same, -⟩
        exact writes.trans (writesOnly_of_same same)
      · rintro _ disk ⟨-, -, rfl⟩
        exact writes
    refine Ends.bind reads ?_
    intro page read writes'
    simp only [ends_modify_bind, ends_pure]
    exact writes'

/-- **`newPage`** also writes the page it makes, at the end of the file. -/
theorem newPage_writes (ok : pool.Consistent) :
    Ends newPage pool
      (fun page pool' => WritesOnly pool pool' (Function.update pool.content page.id (some page)))
      (fun _ pool' => WritesOnly pool pool' pool.content ∨ pool'.disk.file.fail = true) := by
  unfold newPage
  refine Ends.bind (((makeRoom_writes ok).and (makeRoom_ends ok)).mono (fun _ _ done => done)
    fun _ _ failed => .inl failed.1) ?_
  rintro _ roomy ⟨writes, becomes, -⟩
  have allocates : Ends (onDisk DiskManager.allocatePage) roomy
      (fun newId pool' => newId < 2 ^ 32 ∧
        WritesOnly pool pool' (Function.update pool.content newId (some (Page.new newId))))
      (fun _ pool' => WritesOnly pool pool' pool.content ∨ pool'.disk.file.fail = true) := by
    refine (DiskManager.allocatePage_ends becomes.consistent.usable).onPart _ _ ?_ ?_
    · rintro newId disk ⟨-, room, -, grown, -⟩
      refine ⟨room.trans roomy.disk.maxPages_lt, fun other => ?_⟩
      show disk.page? other = _ ∨ disk.page? other = _
      rw [grown]
      by_cases same : other = newId
      · rw [same, Function.update_self, Function.update_self]
        exact .inr rfl
      · rw [Function.update_of_ne same, Function.update_of_ne same]
        exact writes other
    · exact fun _ _ failed => .inr failed.2.2.2
  refine Ends.bind allocates ?_
  rintro newId allocated ⟨small, writes'⟩
  simp only [ends_modify_bind, ends_pure]
  rw [Page.id_new small]
  exact writes'

theorem flushPage_writes (ok : pool.Consistent) (pageId : Nat) :
    Ends (flushPage pageId) pool (fun _ pool' => WritesOnly pool pool' pool.content)
      (fun _ _ => False) := by
  unfold flushPage
  rw [ends_get_bind]
  cases found : pool.pages.lookup pageId with
  | none => exact writesOnly_of_same rfl
  | some frame =>
    cases dirty : frame.dirty with
    | false =>
      simp only [dirty, Bool.false_eq_true, if_false, ends_pure]
      exact writesOnly_of_same rfl
    | true =>
      simp only [dirty, if_true]
      refine Ends.bind (writeFrame_writes ok found) ?_
      intro _ written writes
      rw [ends_modify]
      exact writes

theorem flushEach_writes {pageIds : List Nat} : ∀ {pool : BufferPool}, pool.Consistent →
    Ends (flushEach pageIds) pool (fun _ pool' => WritesOnly pool pool' pool.content)
      (fun _ _ => False) := by
  induction pageIds with
  | nil => exact fun _ => writesOnly_of_same rfl
  | cons pageId rest ih =>
    intro pool ok
    unfold flushEach
    refine Ends.bind ((flushPage_writes ok pageId).and (flushPage_ends ok pageId) |>.mono
      (fun _ _ done => done) fun _ _ never => never.1) ?_
    rintro _ flushed ⟨writes, becomes, -⟩
    refine (ih becomes.consistent).mono (fun _ _ writes' => ?_) fun _ _ never => never
    rw [becomes.content] at writes'
    exact writes.trans writes'

/-- **`flushAll`.** -/
theorem flushAll_writes (ok : pool.Consistent) (order : PageOrder) :
    Ends (flushAll order) pool (fun _ pool' => WritesOnly pool pool' pool.content)
      (fun _ _ => False) := by
  unfold flushAll
  rw [ends_get_bind]
  exact flushEach_writes ok

end BufferPool

end MyDb
