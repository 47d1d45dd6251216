/-
**Calls that are the work of one client.**

A tree or a heap works on the pool through calls of its own, each of which fetches pages, changes
some of them and releases them. Such a call is a client in the sense of `PoolSystem` if what it does
to the pool is what a list of events of that client does, all of them within the discipline, after
which it holds what it held before (`ActsAs`). Then whatever is known of runs of clients is known of
the call.

Such calls are made of visits (`ends_visit`) and of new pages (`newPage_acts`).
-/

import MyDatabaseEngine.Storage.Crash
import MyDatabaseEngine.Storage.PageVisit

set_option linter.unusedSectionVars false

namespace MyDb

open Outcome

/-- The event is a call or a change by this client. -/
def PoolEvent.By {C : Type} (client : C) : PoolEvent C → Prop
  | .fetchPage other _ | .newPage other | .change other _ _ | .unpin other _ _ => other = client
  | .flushPage _ | .flushAll _ => False

/-- Work in memory on a pinned page. -/
theorem NoWorse.ends_bind {α β : Type} {result : Except Fault α}
    {next : α → EStateM Fault BufferPool β} {pool : BufferPool} {returns : β → BufferPool → Prop}
    {throws : Fault → BufferPool → Prop} (noWorse : NoWorse result)
    (undefined : throws .undefinedBehaviour pool)
    (goesOn : ∀ value, Ends (next value) pool returns throws) :
    Ends (MyDb.inMemory result >>= next) pool returns throws := by
  have stays : Keeps (fun pool' => pool' = pool) throws (MyDb.inMemory result) :=
    noWorse.inMemory fun pool' same => same ▸ undefined
  refine (stays pool rfl).bind ?_
  rintro value _ rfl
  exact goesOn value

namespace PoolSystem

variable {C : Type} [DecidableEq C]

/-- What events do to the memory behind the pool, one after the other. -/
def effects (s : PoolSystem C) : List (PoolEvent C) → List (WriteBack.Op Nat (Option Page))
  | [] => []
  | event :: rest => s.effect event ++ effects (s.step event) rest

/-- The system after a call that left this pool. -/
def after (s : PoolSystem C) (pool : BufferPool) : PoolSystem C :=
  { s with pool, memory := pool.content }

/-- A client that has released what it changed. -/
def Idle (client : C) (s : PoolSystem C) : Prop := ∀ pageId, (client, pageId) ∉ s.edited

/-- **The call was the client's**, and did this to the memory. -/
def ActsAs (client : C) (s : PoolSystem C) (ops : List (WriteBack.Op Nat (Option Page)))
    (pool : BufferPool) : Prop :=
  ∃ events, (∀ event ∈ events, event.By client) ∧ Run s events (s.after pool) ∧
    s.effects events = ops

variable {maxPages : Nat} {s s' s'' : PoolSystem C} {events events' : List (PoolEvent C)}
  {client : C} {ops ops' : List (WriteBack.Op Nat (Option Page))} {pool pool' pinned : BufferPool}
  {pageId : Nat} {page : Page} {fault : Fault}

theorem Run.append (run : Run s events s') (next : Run s' events' s'') :
    Run s (events ++ events') s'' := by
  induction run with
  | nil => exact next
  | cons allowed noFailure _ ih => exact .cons allowed noFailure (ih next)

theorem Run.effects_append (run : Run s events s') (events' : List (PoolEvent C)) :
    s.effects (events ++ events') = s.effects events ++ s'.effects events' := by
  induction run with
  | nil => rfl
  | cons _ _ _ ih =>
    rw [List.cons_append, effects, effects, ih, List.append_assoc]

/-- What clients do is a run with crashes in which there is none. -/
theorem Run.crashRun (run : Run s events s') {first : PoolSystem C}
    (before : CrashRun first ops s) :
    CrashRun first (ops ++ s.effects events) s' := by
  induction run generalizing ops with
  | nil =>
    rw [effects, List.append_nil]
    exact before
  | @cons s _ event _ allowed noFailure _ ih =>
    rw [effects, ← List.append_assoc]
    exact ih (before.event event allowed noFailure)

/-! ### Calls -/

theorem Agrees.after_pool (agrees : s.Agrees maxPages) : s.after s.pool = s := by
  unfold after
  rw [agrees.content]

theorem Agrees.noFailure (agrees : s.Agrees maxPages) : s.pool.disk.file.fail = false :=
  FileStream.fail_of_good agrees.consistent.usable.good

theorem ActsAs.agrees (acts : ActsAs client s ops pool) (agrees : s.Agrees maxPages) :
    (s.after pool).Agrees maxPages := by
  obtain ⟨events, -, run, -⟩ := acts
  exact run.agrees agrees

/-- Nothing was done. -/
theorem Agrees.actsAs (agrees : s.Agrees maxPages) : ActsAs client s [] s.pool := by
  refine ⟨[], nofun, ?_, rfl⟩
  rw [agrees.after_pool]
  exact .nil s

/-- **One call after the other.** -/
theorem ActsAs.trans (first : ActsAs client s ops pool)
    (next : ActsAs client (s.after pool) ops' pool') :
    ActsAs client s (ops ++ ops') pool' := by
  obtain ⟨events, byClient, run, rfl⟩ := first
  obtain ⟨events', byClient', run', rfl⟩ := next
  refine ⟨events ++ events', fun event member => ?_, run.append run', run.effects_append events'⟩
  exact (List.mem_append.mp member).elim (byClient event) (byClient' event)

/-- The memory behind the pool goes through what the call did. -/
theorem ActsAs.reflects {m : WriteBack Nat (Option Page)} (acts : ActsAs client s ops pool)
    (reflects : s.Reflects maxPages m) :
    ∃ m', WriteBack.Run anyPage m ops m' ∧ (s.after pool).Reflects maxPages m' := by
  obtain ⟨events, -, run, rfl⟩ := acts
  exact (run.crashRun .nil).reflects reflects

/-- Events after which the client holds what it held. -/
theorem actsAs_of_run (agrees : s.Agrees maxPages) (byClient : ∀ event ∈ events, event.By client)
    (run : Run s events s') (pins : s'.pins = s.pins) (edited : s'.edited = s.edited) :
    ActsAs client s (s.effects events) s'.pool := by
  refine ⟨events, byClient, ?_, rfl⟩
  have same : s.after s'.pool = s' := by
    unfold after
    rw [(run.agrees agrees).content, ← pins, ← edited]
  rw [same]
  exact run

/-- **A page is fetched**, and released as it was or changed. -/
theorem visit_acts (agrees : s.Agrees maxPages) (free : (client, pageId) ∉ s.edited)
    (ran : s.pool.fetchPage pageId = .ok page pinned) :
    s.memory pageId = some page ∧ ActsAs client s [] (pinned.unpin pageId false) ∧
      ∀ page', ActsAs client s [.write pageId (some page')]
        ((pinned.write pageId page').unpin pageId true) := by
  obtain ⟨holds, becomes⟩ := (BufferPool.fetchPage_ends agrees.consistent pageId).of_ok ran
  have fetched := @step_fetchPage_ok _ _ _ client _ _ _ ran
  have good : pinned.disk.file.fail = false :=
    FileStream.fail_of_good becomes.consistent.usable.good
  have fetches : (s.step (.fetchPage client pageId)).pool.disk.file.fail = false := by
    rw [fetched]
    exact good
  have held : (client, pageId) ∈ (s.step (.fetchPage client pageId)).pins := by
    rw [fetched]
    exact Multiset.mem_cons_self _ _
  refine ⟨agrees.content ▸ holds, ?_, fun page' => ?_⟩
  · have run : Run s [.fetchPage client pageId, .unpin client pageId false]
        ((s.step (.fetchPage client pageId)).step (.unpin client pageId false)) := by
      refine .cons trivial fetches (.cons ⟨held, fun edit => ?_⟩ ?_ (.nil _))
      · rw [fetched] at edit
        exact absurd edit free
      · rw [fetched]
        show (pinned.unpin pageId false).disk.file.fail = false
        rw [BufferPool.disk_unpin]
        exact good
    have acts := @actsAs_of_run _ _ _ _ _ _ client agrees (by simp [PoolEvent.By]) run
      (by rw [fetched]; exact Multiset.erase_cons_head _ _)
      (by rw [fetched]; exact Finset.erase_eq_of_notMem free)
    rw [fetched] at acts
    exact acts
  · have changed : ((s.step (.fetchPage client pageId)).step (.change client pageId page')) =
        { s with
          pool := pinned.write pageId page'
          pins := (client, pageId) ::ₘ s.pins
          edited := insert (client, pageId) s.edited
          memory := Function.update s.memory pageId (some page') } := by
      rw [fetched]
      rfl
    have run : Run s [.fetchPage client pageId, .change client pageId page',
      .unpin client pageId true]
        (((s.step (.fetchPage client pageId)).step (.change client pageId page')).step
          (.unpin client pageId true)) := by
      refine .cons trivial fetches (.cons held ?_ (.cons ⟨?_, fun _ => rfl⟩ ?_ (.nil _)))
      · rw [changed]
        show (pinned.write pageId page').disk.file.fail = false
        rw [BufferPool.disk_write]
        exact good
      · rw [changed]
        exact Multiset.mem_cons_self _ _
      · rw [changed]
        show ((pinned.write pageId page').unpin pageId true).disk.file.fail = false
        rw [BufferPool.disk_unpin, BufferPool.disk_write]
        exact good
    have acts := @actsAs_of_run _ _ _ _ _ _ client agrees (by simp [PoolEvent.By]) run
      (by rw [changed]; exact Multiset.erase_cons_head _ _)
      (by rw [changed]; exact Finset.erase_insert free)
    rw [changed] at acts
    exact acts

/-- **A page that cannot be fetched.** -/
theorem missed_acts (agrees : s.Agrees maxPages)
    (ran : s.pool.fetchPage pageId = .error fault pool) :
    ActsAs client s [] pool := by
  have failed := @step_fetchPage_error _ _ _ client _ _ _ ran
  have becomes := ((BufferPool.fetchPage_ends agrees.consistent pageId).of_error ran).2
  have run : Run s [.fetchPage client pageId] (s.step (.fetchPage client pageId)) := by
    refine .cons trivial ?_ (.nil _)
    rw [failed]
    exact FileStream.fail_of_good becomes.consistent.usable.good
  have acts :=
    @actsAs_of_run _ _ _ _ _ _ client agrees (by simp [PoolEvent.By]) run (by rw [failed])
    (by rw [failed])
  rw [failed] at acts
  exact acts

/-- **A visit** to a page is a fetch, and then work that ends with its release. -/
theorem ends_visit {α : Type} {next : Page → EStateM Fault BufferPool α}
    {returns : α → BufferPool → Prop} {throws : Fault → BufferPool → Prop}
    (agrees : s.Agrees maxPages) (idle : s.Idle client)
    (goesOn : ∀ page pinned, s.memory pageId = some page →
      ActsAs client s [] (pinned.unpin pageId false) →
      (∀ page', ActsAs client s [.write pageId (some page')]
        ((pinned.write pageId page').unpin pageId true)) → Ends (next page) pinned returns throws)
    (missed : ∀ fault pool', ActsAs client s [] pool' → throws fault pool') :
    Ends (BufferPool.fetchPage pageId >>= next) s.pool returns throws := by
  cases ran : BufferPool.fetchPage pageId s.pool with
  | ok page pinned =>
    obtain ⟨holds, released, changed⟩ := visit_acts agrees (idle pageId) ran
    exact (ends_bind_of_ok ran).mpr (goesOn page pinned holds released changed)
  | error fault pool' =>
    have fails : Ends (BufferPool.fetchPage pageId) s.pool (fun _ _ => False) throws :=
      ends_of_eq_error ran (missed fault pool' (missed_acts agrees ran))
    exact fails.bind fun _ _ never => never.elim

/-- **A page is made**, and released. -/
theorem newPage_acts (agrees : s.Agrees maxPages) (idle : s.Idle client)
    (ran : s.pool.newPage = .ok page pool) :
    ActsAs client s [.write page.id (some (Page.new page.id))] (pool.unpin page.id true) := by
  have made := @step_newPage_ok _ _ _ client _ _ ran
  obtain ⟨-, -, -, becomes⟩ := (BufferPool.newPage_ends agrees.consistent).of_ok ran
  have good : pool.disk.file.fail = false := FileStream.fail_of_good becomes.consistent.usable.good
  have run : Run s [.newPage client, .unpin client page.id true]
      ((s.step (.newPage client)).step (.unpin client page.id true)) := by
    refine .cons trivial ?_ (.cons ⟨?_, fun _ => rfl⟩ ?_ (.nil _))
    · rw [made]
      exact good
    · rw [made]
      exact Multiset.mem_cons_self _ _
    · rw [made]
      show (pool.unpin page.id true).disk.file.fail = false
      rw [BufferPool.disk_unpin]
      exact good
  have acts := @actsAs_of_run _ _ _ _ _ _ client agrees (by simp [PoolEvent.By]) run
    (by rw [made]; exact Multiset.erase_cons_head _ _)
    (by rw [made]; exact Finset.erase_eq_of_notMem (idle _))
  rw [made] at acts
  unfold effects effect at acts
  rw [ran] at acts
  exact acts

/-- A page that cannot be made: no frame was to be had, or the file failed. -/
theorem refused_acts (agrees : s.Agrees maxPages) (ran : s.pool.newPage = .error fault pool) :
    ActsAs client s [] pool ∨ BufferPool.DiskFull s.pool.disk.maxPages fault pool := by
  have failed := @step_newPage_error _ _ _ client _ _ ran
  rcases (BufferPool.newPage_ends agrees.consistent).of_error ran with ⟨-, -, becomes⟩ | full
  · have run : Run s [.newPage client] (s.step (.newPage client)) := by
      refine .cons trivial ?_ (.nil _)
      rw [failed]
      exact FileStream.fail_of_good becomes.consistent.usable.good
    have acts :=
      @actsAs_of_run _ _ _ _ _ _ client agrees (by simp [PoolEvent.By]) run (by rw [failed])
      (by rw [failed])
    rw [failed] at acts
    unfold effects effect at acts
    rw [ran] at acts
    exact .inl acts
  · exact .inr ⟨full.1, full.2.2⟩

end PoolSystem

end MyDb
