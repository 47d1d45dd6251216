/-
**The pool when the process stops.**

What the clients of a pool change is in memory, until the pool writes the page to the file. A
`CrashRun` is a run of clients in which the process may stop at any point between two calls and
start again: a new pool, with no pins, on a disk manager that opens the file as it was left. A page
is written to the file whole or not at all.

`Reflects`: the pool and its file together are a memory whose cells are written back later
(`WriteBack`). A flush settles the pages that no client is editing. So `pool_writesBack`: a crash
gives every page back as it was at some moment since it was last flushed, each page on its own.
-/

import MyDatabaseEngine.Lib.WriteBack
import MyDatabaseEngine.Storage.FileWrites
import MyDatabaseEngine.Storage.Transparency

set_option linter.unusedSectionVars false

namespace MyDb

open Outcome

namespace PoolSystem

variable {C : Type} [DecidableEq C]

/-- The pages that no client has changed since it last unpinned them. -/
def unedited (s : PoolSystem C) : Set Nat := {pageId | ∀ client, (client, pageId) ∉ s.edited}

/-- **What an event does to the memory behind the pool.** -/
def effect (s : PoolSystem C) : PoolEvent C → List (WriteBack.Op Nat (Option Page))
  | .newPage _ =>
    match s.pool.newPage with
    | .ok page _ => [.write page.id (some (Page.new page.id))]
    | .error _ _ => []
  | .change _ pageId page => [.write pageId (some page)]
  | .flushPage pageId => [.settle ({pageId} ∩ s.unedited)]
  | .flushAll _ => [.settle s.unedited]
  | .fetchPage _ _ | .unpin _ _ _ => []

/-- The process has stopped and starts again, with a pool of this size. -/
def restart (poolSize : Nat) (s : PoolSystem C) : PoolSystem C :=
  start C poolSize
    (DiskManager.openFile s.pool.disk.file.bytes s.pool.disk.maxPages s.pool.disk.maxPages_lt)

/-- **A run with crashes**, with no file I/O failure. -/
inductive CrashRun (s : PoolSystem C) : List (WriteBack.Op Nat (Option Page)) → PoolSystem C → Prop
  | nil : CrashRun s [] s
  | event {ops : List (WriteBack.Op Nat (Option Page))} {s' : PoolSystem C} (event : PoolEvent C) :
      CrashRun s ops s' → s'.Allowed event → (s'.step event).pool.disk.file.fail = false →
      CrashRun s (ops ++ s'.effect event) (s'.step event)
  | crash {ops : List (WriteBack.Op Nat (Option Page))} {s' : PoolSystem C} (poolSize : Nat) :
      CrashRun s ops s' → CrashRun s (ops ++ [.crash]) (s'.restart poolSize)

/-! ### One event -/

section Event

variable {maxPages : Nat} {s : PoolSystem C} {event : PoolEvent C} {client : C} {pageId : Nat}
  {page : Page} {fault : Fault} {pool : BufferPool} {order : PageOrder}

theorem step_fetchPage_ok (ran : s.pool.fetchPage pageId = .ok page pool) :
    s.step (.fetchPage client pageId) = { s with pool, pins := (client, pageId) ::ₘ s.pins } := by
  simp only [step, ran]

theorem step_fetchPage_error (ran : s.pool.fetchPage pageId = .error fault pool) :
    s.step (.fetchPage client pageId) = { s with pool } := by
  simp only [step, ran]

theorem step_newPage_ok (ran : s.pool.newPage = .ok page pool) :
    s.step (.newPage client) =
      { s with
        pool
        pins := (client, page.id) ::ₘ s.pins
        memory := Function.update s.memory page.id (some (Page.new page.id)) } := by
  simp only [step, ran]

theorem step_newPage_error (ran : s.pool.newPage = .error fault pool) :
    s.step (.newPage client) = { s with pool } := by
  simp only [step, ran]

theorem step_flushPage_ok (ran : s.pool.flushPage pageId = .ok ⟨⟩ pool) :
    s.step (.flushPage pageId) = { s with pool } := by
  simp only [step, ran]

theorem step_flushAll_ok (ran : s.pool.flushAll order = .ok ⟨⟩ pool) :
    s.step (.flushAll order) = { s with pool } := by
  simp only [step, ran]

/-- **What an event writes to the file** is what the memory has become. -/
theorem Agrees.writesOnly (agrees : s.Agrees maxPages)
    (noFailure : (s.step event).pool.disk.file.fail = false) :
    s.pool.WritesOnly (s.step event).pool (s.step event).memory := by
  have ok := agrees.consistent
  have content : s.pool.content = s.memory := agrees.content
  cases event with
  | fetchPage client pageId =>
    have writes := BufferPool.fetchPage_writes ok pageId
    rw [content] at writes
    cases ran : s.pool.fetchPage pageId with
    | ok page pool =>
      rw [step_fetchPage_ok ran]
      exact writes.of_ok ran
    | error fault pool =>
      rw [step_fetchPage_error ran]
      exact writes.of_error ran
  | newPage client =>
    have writes := BufferPool.newPage_writes ok
    rw [content] at writes
    cases ran : s.pool.newPage with
    | ok page pool =>
      obtain ⟨isNew, named, -⟩ := (BufferPool.newPage_ends ok).of_ok ran
      have same : Page.new page.id = page := by rw [named, isNew]
      rw [step_newPage_ok ran, same]
      exact writes.of_ok ran
    | error fault pool =>
      rw [step_newPage_error ran] at noFailure ⊢
      exact (writes.of_error ran).resolve_right fun failed => nomatch noFailure.symm.trans failed
  | change client pageId page =>
    refine BufferPool.writesOnly_of_same ?_
    show (s.pool.write pageId page).disk.page? = _
    rw [BufferPool.disk_write]
  | unpin client pageId isDirty =>
    refine BufferPool.writesOnly_of_same ?_
    show (s.pool.unpin pageId isDirty).disk.page? = _
    rw [BufferPool.disk_unpin]
  | flushPage pageId =>
    obtain ⟨_, pool, ran, writes⟩ := (BufferPool.flushPage_writes ok pageId).exists_ok
    rw [step_flushPage_ok ran]
    exact content ▸ writes
  | flushAll order =>
    obtain ⟨_, pool, ran, writes⟩ := (BufferPool.flushAll_writes ok order).exists_ok
    rw [step_flushAll_ok ran]
    exact content ▸ writes

/-- **A flushed page is in the file**, unless it is being edited. -/
theorem Agrees.flushPage_stores (agrees : s.Agrees maxPages) (free : pageId ∈ s.unedited) :
    (s.step (.flushPage pageId)).pool.disk.page? pageId = s.memory pageId := by
  obtain ⟨_, pool, ran, becomes, stored, -⟩ :=
    (BufferPool.flushPage_ends agrees.consistent pageId).exists_ok
  rw [step_flushPage_ok ran, ← agrees.content]
  exact (stored (agrees.settled pageId free)).trans (congrFun becomes.content pageId)

theorem Agrees.flushAll_stores (agrees : s.Agrees maxPages) (order : PageOrder)
    (free : pageId ∈ s.unedited) :
    (s.step (.flushAll order)).pool.disk.page? pageId = s.memory pageId := by
  obtain ⟨_, pool, ran, becomes, stored⟩ :=
    (BufferPool.flushAll_ends agrees.consistent order).exists_ok
  rw [step_flushAll_ok ran, ← agrees.content]
  exact (stored pageId (agrees.settled pageId free)).trans (congrFun becomes.content pageId)

end Event

/-! ### The memory behind the pool -/

/-- Any page may be written over any other. -/
def anyPage (_ : Nat) (_ _ : Option Page) : Prop := True

/-- **The pool and its file are this memory**: a client sees what the cells hold, and the file has
on every page something that the cell may come back with. -/
structure Reflects (maxPages : Nat) (s : PoolSystem C) (m : WriteBack Nat (Option Page)) : Prop
    extends s.Agrees maxPages where
  sound : m.Sound
  now : m.now = s.memory
  onFile : ∀ pageId, s.pool.disk.page? pageId ∈ m.since pageId

section Reflects

variable {maxPages : Nat} {s : PoolSystem C} {m : WriteBack Nat (Option Page)} {event : PoolEvent C}

theorem reflects_start {poolSize : Nat} {disk : DiskManager} (usable : disk.Usable) :
    (start C poolSize disk).Reflects disk.maxPages (.idle disk.page?) where
  toAgrees := agrees_start usable
  sound := WriteBack.sound_idle _
  now := rfl
  onFile := fun _ => rfl

/-- The file that is left can be opened. -/
theorem Reflects.usable_restart (reflects : s.Reflects maxPages m) :
    (DiskManager.openFile s.pool.disk.file.bytes s.pool.disk.maxPages
      s.pool.disk.maxPages_lt).Usable := by
  have usable := reflects.consistent.usable
  refine DiskManager.usable_openFile _ ?_
  rw [← usable.pageCount]
  exact usable.fits

/-- An event that changes no page. -/
theorem Reflects.unwritten (reflects : s.Reflects maxPages m) {s' : PoolSystem C}
    (agrees : s'.Agrees maxPages) (writes : s.pool.WritesOnly s'.pool s'.memory)
    (memory : s'.memory = s.memory) : s'.Reflects maxPages m where
  toAgrees := agrees
  sound := reflects.sound
  now := reflects.now.trans memory.symm
  onFile := by
    intro pageId
    rcases writes pageId with stays | written
    · rw [stays]
      exact reflects.onFile pageId
    · rw [written, memory, ← reflects.now]
      exact reflects.sound pageId

/-- A page is changed, or made. -/
theorem Reflects.write (reflects : s.Reflects maxPages m) {s' : PoolSystem C}
    (agrees : s'.Agrees maxPages) (writes : s.pool.WritesOnly s'.pool s'.memory) {pageId : Nat}
    {page : Page} (memory : s'.memory = Function.update s.memory pageId (some page)) :
    WriteBack.Run anyPage m [.write pageId (some page)] (m.write pageId (some page)) ∧
      s'.Reflects maxPages (m.write pageId (some page)) := by
  have step : WriteBack.Step anyPage m (.write pageId (some page)) (m.write pageId (some page)) :=
    .write trivial
  have now : (m.write pageId (some page)).now = s'.memory := by
    rw [memory, ← reflects.now]
    rfl
  have sound := step.sound reflects.sound
  refine ⟨.concat .nil step, agrees, sound, now, fun other => ?_⟩
  rcases writes other with stays | written
  · rw [stays]
    by_cases same : other = pageId
    · rw [same, WriteBack.since_write_self]
      exact Set.mem_insert_of_mem _ (reflects.onFile pageId)
    · rw [WriteBack.since_write_of_ne same]
      exact reflects.onFile other
  · rw [written, ← now]
    exact sound other

/-- Pages are flushed. -/
theorem Reflects.settle (reflects : s.Reflects maxPages m) {s' : PoolSystem C}
    (agrees : s'.Agrees maxPages) (writes : s.pool.WritesOnly s'.pool s'.memory)
    (memory : s'.memory = s.memory) {cells : Set Nat}
    (stored : ∀ pageId ∈ cells, s'.pool.disk.page? pageId = s.memory pageId) :
    WriteBack.Run anyPage m [.settle cells] (m.settle cells) ∧
      s'.Reflects maxPages (m.settle cells) := by
  have step : WriteBack.Step anyPage m (.settle cells) (m.settle cells) := .settle
  have before := reflects.unwritten agrees writes memory
  refine ⟨.concat .nil step, agrees, step.sound reflects.sound, before.now, fun pageId => ?_⟩
  by_cases among : pageId ∈ cells
  · refine .inl ((stored pageId among).trans ?_)
    rw [← reflects.now]
  · exact .inr ⟨among, before.onFile pageId⟩

/-- **Step lemma.** -/
theorem Reflects.step (reflects : s.Reflects maxPages m) (allowed : s.Allowed event)
    (noFailure : (s.step event).pool.disk.file.fail = false) :
    ∃ m', WriteBack.Run anyPage m (s.effect event) m' ∧ (s.step event).Reflects maxPages m' := by
  have agrees := reflects.toAgrees.step allowed noFailure
  have writes := reflects.toAgrees.writesOnly noFailure
  cases event with
  | fetchPage client pageId =>
    refine ⟨m, .nil, reflects.unwritten agrees writes ?_⟩
    cases ran : s.pool.fetchPage pageId with
    | ok page pool => rw [step_fetchPage_ok ran]
    | error fault pool => rw [step_fetchPage_error ran]
  | newPage client =>
    unfold effect
    cases ran : s.pool.newPage with
    | ok page pool =>
      rw [step_newPage_ok ran] at agrees writes ⊢
      exact ⟨_, reflects.write agrees writes rfl⟩
    | error fault pool =>
      rw [step_newPage_error ran] at agrees writes ⊢
      exact ⟨m, .nil, reflects.unwritten agrees writes rfl⟩
  | change client pageId page => exact ⟨_, reflects.write agrees writes rfl⟩
  | unpin client pageId isDirty => exact ⟨m, .nil, reflects.unwritten agrees writes rfl⟩
  | flushPage pageId =>
    obtain ⟨_, pool, ran, -⟩ := (BufferPool.flushPage_ends reflects.consistent pageId).exists_ok
    have memory : (s.step (.flushPage pageId)).memory = s.memory := by rw [step_flushPage_ok ran]
    refine ⟨_, reflects.settle agrees writes memory ?_⟩
    rintro _ ⟨rfl, free⟩
    exact reflects.flushPage_stores free
  | flushAll order =>
    obtain ⟨_, pool, ran, -⟩ := (BufferPool.flushAll_ends reflects.consistent order).exists_ok
    have memory : (s.step (.flushAll order)).memory = s.memory := by rw [step_flushAll_ok ran]
    exact ⟨_, reflects.settle agrees writes memory fun pageId free =>
      reflects.flushAll_stores order free⟩

/-- **The process stops**, and the memory is what the file holds. -/
theorem Reflects.restart (reflects : s.Reflects maxPages m) (poolSize : Nat) :
    WriteBack.Step anyPage m .crash (.idle s.pool.disk.page?) ∧
      (s.restart poolSize).Reflects maxPages (.idle s.pool.disk.page?) := by
  have reopened : (DiskManager.openFile s.pool.disk.file.bytes s.pool.disk.maxPages
      s.pool.disk.maxPages_lt).page? = s.pool.disk.page? := DiskManager.page?_congr rfl
  have started := @reflects_start C _ poolSize _ reflects.usable_restart
  rw [reopened] at started
  exact ⟨.crash reflects.onFile, reflects.maxPages ▸ started⟩

/-- **Run lemma.** -/
theorem CrashRun.reflects {ops : List (WriteBack.Op Nat (Option Page))} {s' : PoolSystem C}
    (run : CrashRun s ops s') (reflects : s.Reflects maxPages m) :
    ∃ m', WriteBack.Run anyPage m ops m' ∧ s'.Reflects maxPages m' := by
  induction run with
  | nil => exact ⟨m, .nil, reflects⟩
  | event event _ allowed noFailure ih =>
    obtain ⟨m', ran, reflects'⟩ := ih
    obtain ⟨m'', more, reflects''⟩ := reflects'.step allowed noFailure
    exact ⟨m'', ran.append more, reflects''⟩
  | crash poolSize _ ih =>
    obtain ⟨m', ran, reflects'⟩ := ih
    obtain ⟨crashes, restarted⟩ := reflects'.restart poolSize
    exact ⟨_, ran.concat crashes, restarted⟩

/-- No page that was made is lost. -/
theorem Reflects.isSome (reflects : s.Reflects maxPages m) (pageId : Nat) :
    (s.pool.disk.page? pageId).isSome = (s.memory pageId).isSome := by
  rw [Bool.eq_iff_iff, reflects.consistent.usable.page?_isSome, ← reflects.content,
    reflects.consistent.content_isSome]

end Reflects

end PoolSystem

open PoolSystem

/-- **The pool and its file are a memory that is written back later.** In every run of clients under
their discipline, with crashes at any points, some such memory goes through what the clients do:
changed pages are written, flushed pages that nobody edits are settled, and a crash brings each cell
back to something it held since it was last settled. What a client fetches is what the memory holds.
And should the process stop now, every page is still there, and holds what it held at some moment
since it was last flushed. -/
theorem pool_writesBack {C : Type} [DecidableEq C] {poolSize : Nat} {bytes : Str} {maxPages : Nat}
    {maxPages_lt : maxPages < 2 ^ 32} (fits : bytes.length / pageSize ≤ maxPages)
    {ops : List (WriteBack.Op Nat (Option Page))} {s : PoolSystem C}
    (run : CrashRun (start C poolSize (DiskManager.openFile bytes maxPages maxPages_lt)) ops s) :
    let file := (DiskManager.openFile bytes maxPages maxPages_lt).page?
    ∃ m, WriteBack.Run anyPage (.idle file) ops m ∧
      (∀ pageId page pool, s.pool.fetchPage pageId = .ok page pool → m.now pageId = some page) ∧
      (∀ pageId fault pool, s.pool.fetchPage pageId = .error fault pool →
        fault = BufferPool.poolFull ∧ s.pool.Full ∨
          fault = DiskManager.noSuchPage pageId ∧ m.now pageId = none) ∧
      ∀ poolSize' pageId, ((s.restart poolSize').memory pageId).isSome = (m.now pageId).isSome ∧
        WriteBack.Held anyPage (.idle file) ops m pageId ((s.restart poolSize').memory pageId) := by
  intro file
  obtain ⟨m, ran, reflects⟩ :=
    run.reflects (reflects_start (DiskManager.usable_openFile maxPages_lt fits))
  have content : s.pool.content = m.now := reflects.content.trans reflects.now.symm
  refine ⟨m, ran, ?_, ?_, fun poolSize' pageId => ⟨?_, ?_⟩⟩
  · intro pageId page pool fetched
    rw [← content]
    exact ((BufferPool.fetchPage_ends reflects.consistent pageId).of_ok fetched).1
  · intro pageId fault pool failed
    rw [← content]
    exact ((BufferPool.fetchPage_ends reflects.consistent pageId).of_error failed).1
  · rw [reflects.now]
    exact reflects.isSome pageId
  · exact ran.mem_since (fun _ => rfl) (reflects.onFile pageId)

/-- The page is made and changed, and the process stops. -/
def lostEdit : PoolSystem Nat :=
  (([.newPage 0, .change 0 0 editedPage, .unpin 0 0 true] : List (PoolEvent Nat)).foldl step
    (start Nat 1 emptyFile)).restart 1

theorem pool_writesBack_lostEdit :
    ∃ ops m, WriteBack.Run anyPage (.idle emptyFile.page?) ops m ∧ WriteBack.Op.crash ∈ ops ∧
      ∀ page pool, lostEdit.pool.fetchPage 0 = .ok page pool → m.now 0 = some page := by
  have run : CrashRun (start Nat 1 emptyFile) _ lostEdit :=
    .crash 1 <|
    .event (.unpin 0 0 true) (.event (.change 0 0 editedPage) (.event (.newPage 0) .nil trivial
      (by decide +kernel)) (by decide +kernel) (by decide +kernel)) (by decide +kernel)
        (by decide +kernel)
  obtain ⟨m, ran, fetches, -⟩ := pool_writesBack (by decide) run
  exact ⟨_, m, ran, List.mem_append_right _ (List.mem_singleton_self _), fetches 0⟩

end MyDb
