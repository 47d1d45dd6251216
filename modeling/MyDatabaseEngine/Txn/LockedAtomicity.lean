/-
**Rolled-back transactions leave no trace.**

In a locked run whose rolled-back transactions only insert and update, the storage is what the
committed transactions alone leave, run one after the other with the same answers
(`lockedRun_atomic`): each rollback gives back the storage its transaction began on in the serial
run, and the next transaction runs there as it did (`Served.transfer`).

The serial run is the one that the theorem on locked runs provides, so no interleaving is left to
look at. Dropping a rolled-back transaction from it changes the ids that `begin` hands out; a
transaction's answers and its writes do not depend on its id, and that is what `Served.transfer`
says. Transactions that delete are excluded, since their rollback does not put rows back.
-/

import MyDatabaseEngine.Txn.LockedRecovery

namespace MyDb

open KeyedList
open TransactionManager (undoWrite)

section Atomicity

variable {order : RowOrder} {stdSort : StdSort Row} {name : Str → Str} {P : TableStorage → Prop}
  {s s' : Session} {id : TxnId} {txn : Transaction}

/-- **The same requests on the same storage are served the same**, under another id. -/
theorem Served.transfer {served : List (Request × Answer)} (run : Served stdSort P id s served s')
    (known : s.manager.get id = .ok txn) (active : txn.active = true) {t : Session} {id' : TxnId}
    {txn' : Transaction} (known' : t.manager.get id' = .ok txn') (active' : txn'.active = true)
    (sameLog : txn'.writeLog = txn.writeLog) (sameStorage : t.storage = s.storage)
    (given : t.manager.IdsGiven) :
    ∃ log t', Served stdSort P id' t served t' ∧ t'.storage = s'.storage ∧
      s'.manager.get id = .ok { txn with writeLog := log } ∧
      t'.manager.get id' = .ok { txn' with writeLog := log } ∧ t'.manager.IdsGiven := by
  induction run with
  | nil => exact ⟨txn.writeLog, t, .nil, sameStorage, known, sameLog ▸ known', given⟩
  | @concat s₁ s₂ served request answer _ last holds ih =>
    obtain ⟨log, t₁, run', same, known₁, known₁', given₁⟩ := ih
    obtain ⟨log', storage, effect, rfl⟩ := (serve_iff known₁ active).mp last
    have effect' : OpEffect stdSort (.served request answer) log t₁.storage log' storage :=
      same ▸ effect
    have last' := (serve_iff known₁' active').mpr ⟨log', storage, effect', rfl⟩
    exact ⟨log', _, .concat run' last' holds, rfl, get_eq_ok.mpr (Finmap.lookup_insert _),
      get_eq_ok.mpr (Finmap.lookup_insert _), idsGiven_advance given₁ known₁' log' storage⟩

/-- **A serial run without its rolled-back transactions.** -/
theorem serialTxns_committed (keyed : ∀ storage, P storage → storage.WellKeyed)
    {traces : List TxnTrace} (run : SerialTxns order stdSort P s traces s')
    (given : s.manager.IdsGiven) (holds : P s.storage) (keepsId : ∀ trace ∈ traces, trace.KeepsId)
    (noDelete : ∀ trace ∈ traces, trace.committed = false →
      ∀ stmt ∈ statementsOf trace.served, stmt.kind ≠ .delete) :
    s'.manager.IdsGiven ∧ P s'.storage ∧
      ∃ t, SerialTxns order stdSort P s (traces.filter TxnTrace.committed) t ∧
        t.storage = s'.storage ∧ t.manager.IdsGiven := by
  induction run with
  | nil => exact ⟨given, holds, s, .nil, rfl, given⟩
  | @concat s₁ s₂ s₃ s₄ traces id txn served committed _ begun run known done holds₄ ih =>
    obtain ⟨given₁, holds₁, t₁, committedRun, same, givenT⟩ :=
      ih (fun trace member => keepsId trace (List.mem_append_left _ member))
        fun trace member => noDelete trace (List.mem_append_left _ member)
    have own := List.mem_append_right traces
      (List.mem_singleton_self (⟨served, committed, txn.writeLog⟩ : TxnTrace))
    cases begun
    obtain ⟨known₂, given₂⟩ := get_begin given₁
    have stmts := statements_of_served run (keepsId _ own)
    obtain ⟨log, known₃, given₃, _, writes, kinds⟩ :=
      writes_of_statements keyed stmts known₂ rfl given₂ holds₁
    cases known.symm.trans known₃
    have given₄ : s₄.manager.IdsGiven := by
      obtain ⟨_, _, rfl⟩ := (finish_iff stdSort known rfl).mp done
      exact (@ManagerStep.finish order _ _ _ committed (get_eq_ok.mp known) rfl).idsGiven given₃
    refine ⟨given₄, holds₄, ?_⟩
    rw [List.filter_append]
    cases committed with
    | true =>
      obtain ⟨knownT₂, givenT₂⟩ := get_begin givenT
      obtain ⟨log', t₃, runT, sameT, known₃', knownT₃, givenT₃⟩ :=
        run.transfer known₂ rfl knownT₂ rfl rfl same givenT₂
      cases known.symm.trans known₃'
      obtain ⟨storage, effect, rfl⟩ := (finish_iff stdSort known rfl).mp done
      rw [← sameT] at effect
      have doneT := (@finish_iff order stdSort _ _ _ _ knownT₃ rfl _).mpr ⟨storage, effect, rfl⟩
      have result := SerialTxns.concat committedRun rfl runT knownT₃ doneT holds₄
      exact ⟨_, result, rfl,
        (@ManagerStep.finish order _ _ _ true (get_eq_ok.mp knownT₃) rfl).idsGiven givenT₃⟩
    | false =>
      have undone : log.foldr undoWrite s₃.storage = s₁.storage := by
        refine writes.undo fun wr member => ?_
        obtain ⟨stmt, inside, kind⟩ := kinds wr member
        rw [kind]
        exact noDelete _ own rfl stmt inside
      obtain ⟨storage, effect, rfl⟩ := (finish_iff stdSort known rfl).mp done
      cases effect
      refine ⟨t₁, ?_, same.trans undone.symm, givenT⟩
      have dropped :
        [(⟨served, false, (Transaction.extend { id := s₁.manager.nextId } log).writeLog⟩ :
          TxnTrace)].filter TxnTrace.committed = [] := rfl
      rw [dropped, List.append_nil]
      exact committedRun

/-- **Rolled-back transactions leave no trace.** When no rolled-back transaction of a locked run has
made a DELETE, there is a serial run of the committed transactions alone, in the order they
committed and with the same answers and write logs, whose tables are those of the locked run
wherever no transaction holds an exclusive lock. -/
theorem lockedRun_atomic {events : List LockedEvent} (quiet : s.Quiet) (keyed : s.storage.WellKeyed)
    (run : LockedRun order stdSort name (Keyed Row.id?) s events s')
    (keepsId : ∀ trace ∈ (ledgerOf events).ended, trace.KeepsId)
    (noDelete : ∀ trace ∈ (ledgerOf events).ended, trace.committed = false →
      ∀ stmt ∈ statementsOf trace.served, stmt.kind ≠ .delete) :
    ∃ serial, SerialTxns order stdSort TableStorage.WellKeyed s
        ((ledgerOf events).ended.filter TxnTrace.committed) serial ∧
      ∀ table, (∀ id, ¬ s'.Owns name id table) →
        s'.storage.lookup table = serial.storage.lookup table := by
  obtain ⟨⟨_, _, storage, _, serial, settled⟩, _⟩ := run.consistent quiet keyed
  obtain ⟨serialEnd, serialTxns, rfl, _⟩ := @serialTxns_of_serial order _ _ _ _ _ quiet.given serial
  obtain ⟨_, _, t, committed, same, _⟩ :=
    serialTxns_committed (fun _ holds => holds) serialTxns quiet.given keyed keepsId noDelete
  refine ⟨t, committed, fun table unowned => ?_⟩
  rw [same]
  exact settled.free table unowned

end Atomicity

/-- One transaction is rolled back, the next commits. -/
theorem lockedRun_atomic_insertions : ∃ (events : List LockedEvent) (s' serial : Session),
    LockedRun default default id (Keyed Row.id?) freshSession events s' ∧
      (ledgerOf events).ended.map TxnTrace.committed = [false, true] ∧
      SerialTxns default default TableStorage.WellKeyed freshSession
        ((ledgerOf events).ended.filter TxnTrace.committed) serial := by
  have run : LockedRun default default id (Keyed Row.id?) freshSession _ _ :=
    .concat (.concat (.concat (.concat (.concat (.concat (.concat (.concat .nil
      .begin) .begin)
      (@LockedStep.acquireLock default default id _ _ 1 _ (str "users") .exclusive rfl rfl))
      (@LockedStep.serve default default id _ _ _ 1 _ (.dml (insertUser "1")) _ rfl rfl
        (show (⟨1, .exclusive⟩ : LockEntry) ∈ _ by decide) rfl
        (show TableStorage.WellKeyed _ by decide)))
      (@LockedStep.finish default default id _ _ _ 1 _ false rfl rfl
        (show TableStorage.WellKeyed _ by decide)))
      (@LockedStep.acquireLock default default id _ _ 2 _ (str "users") .exclusive rfl rfl))
      (@LockedStep.serve default default id _ _ _ 2 _ (.dml (insertUser "2")) _ rfl rfl
        (show (⟨2, .exclusive⟩ : LockEntry) ∈ _ by decide) rfl
        (show TableStorage.WellKeyed _ by decide)))
      (@LockedStep.finish default default id _ _ _ 2 _ true rfl rfl
        (show TableStorage.WellKeyed _ by decide))
  obtain ⟨serial, committed, _⟩ := lockedRun_atomic (quiet_of_fresh rfl) (by decide) run
    (List.forall_mem_cons.mpr ⟨List.forall_mem_singleton.mpr rfl,
      List.forall_mem_singleton.mpr (List.forall_mem_singleton.mpr rfl)⟩)
    (List.forall_mem_cons.mpr ⟨fun _ => List.forall_mem_singleton.mpr (by decide),
      List.forall_mem_singleton.mpr fun rolledBack => Bool.noConfusion rolledBack⟩)
  exact ⟨_, _, serial, run, rfl, committed⟩

end MyDb
