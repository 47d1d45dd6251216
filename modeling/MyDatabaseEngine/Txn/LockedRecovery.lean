/-
**Recovery after a locked run.**

Without its queries the serial run of `lockedRun_serializable` is a `SerialRun`
(`serialRun_of_serialTxns`). The log of the locked run holds the records of each transaction that
has ended in one piece, in the order they ended, with Begin records in between (`LogBlocks`). Both
logs therefore decode to the same writes of the same outcome, and recovery makes the same of them
(`recover_lockedRun`). When every transaction that has ended committed, recovery gives the tables
these left, whatever was under way (`recover_lockedRun_commits`).

Rows are assumed to have an id, unique in their table, and a text that is read back, at every point
of the run, and no UPDATE assigns the id: these are what a record needs to stand for a row. The
transactions under way have nothing but a Begin record in the log.
-/

import MyDatabaseEngine.Txn.Serializability

namespace MyDb

open KeyedList
open TransactionManager (dataRecord undoWrite)

/-! ### The serial run without its queries -/

section Scripts

/-- The statement a request runs. -/
def Request.dml? : Request → Option DmlStatement
  | .dml stmt => some stmt
  | .query _ _ => none

/-- The statements among some requests. -/
def statementsOf (served : List (Request × Answer)) : List DmlStatement :=
  served.filterMap fun e => e.1.dml?

namespace TxnTrace

def history (trace : TxnTrace) : TxnHistory := ⟨trace.committed, trace.writes⟩

def asScript (trace : TxnTrace) : TxnScript := ⟨statementsOf trace.served, trace.committed⟩

/-- No UPDATE of the transaction assigns `id`. -/
def KeepsId (trace : TxnTrace) : Prop := ∀ stmt ∈ statementsOf trace.served, stmt.assignsId = false

end TxnTrace

variable {order : RowOrder} {stdSort : StdSort Row} {P : TableStorage → Prop} {s s' s'' : Session}
  {id : TxnId}

theorem Statements.append {stmts stmts' : List DmlStatement} (run : Statements P id s stmts s')
    (run' : Statements P id s' stmts' s'') : Statements P id s (stmts ++ stmts') s'' := by
  induction run with
  | nil => exact run'
  | cons keepsId done holds _ ih => exact .cons keepsId done holds (ih run')

theorem SerialRun.append {scripts scripts' : List TxnScript} {history history' : List TxnHistory}
    (run : SerialRun order P s scripts history s')
    (run' : SerialRun order P s' scripts' history' s'') :
    SerialRun order P s (scripts ++ scripts') (history ++ history') s'' := by
  induction run with
  | done => exact run'
  | commit begun stmts known done holds _ ih => exact .commit begun stmts known done holds (ih run')
  | rollback begun stmts known done holds _ ih =>
    exact .rollback begun stmts known done holds (ih run')

/-- A statement that is served is executed. -/
theorem exec_of_serve {stmt : DmlStatement} {answer : Answer}
    (served : s.serve stdSort id (.dml stmt) = .ok (answer, s')) : s.exec id stmt = .ok s' := by
  unfold Session.serve at served
  dsimp only [bind, Except.bind] at served
  cases known : s.manager.get id with
  | error fault =>
    rw [known] at served
    cases served
  | ok txn =>
    rw [known] at served
    dsimp only at served
    cases done : s.exec id stmt with
    | error fault =>
      rw [done] at served
      cases served
    | ok s'' =>
      rw [done] at served
      cases served
      rfl

/-- **The statements among the requests of a transaction run as they did.** -/
theorem statements_of_served {served : List (Request × Answer)}
    (run : Served stdSort P id s served s')
    (keepsId : ∀ stmt ∈ statementsOf served, stmt.assignsId = false) :
    Statements P id s (statementsOf served) s' := by
  induction run with
  | nil => exact .nil s
  | @concat s₁ s₂ served request answer _ last holds ih =>
    have split : statementsOf (served ++ [(request, answer)]) =
        statementsOf served ++ request.dml?.toList := by
      unfold statementsOf
      rw [List.filterMap_append]
      cases request <;> rfl
    rw [split] at keepsId ⊢
    have before := ih fun stmt member => keepsId stmt (List.mem_append_left _ member)
    cases request with
    | dml stmt =>
      refine before.append (.cons (keepsId stmt ?_) (exec_of_serve last) holds (.nil _))
      exact List.mem_append_right _ (List.mem_singleton_self stmt)
    | query snapshot plan =>
      cases last
      exact before.append (.nil _)

/-- **A serial run of requests, as a serial run of statements.** -/
theorem serialRun_of_serialTxns {traces : List TxnTrace}
    (run : SerialTxns order stdSort P s traces s') (keepsId : ∀ trace ∈ traces, trace.KeepsId) :
    SerialRun order P s (traces.map TxnTrace.asScript) (traces.map TxnTrace.history) s' := by
  induction run with
  | nil => exact .done s
  | @concat s₁ s₂ s₃ s₄ traces id txn served committed _ begun run known done holds ih =>
    rw [List.map_append, List.map_append]
    refine (ih fun trace member => keepsId trace (List.mem_append_left _ member)).append ?_
    have stmts := statements_of_served run
      (keepsId ⟨served, committed, txn.writeLog⟩
        (List.mem_append_right _ (List.mem_singleton_self _)))
    cases committed with
    | true => exact .commit begun stmts known done holds (.done _)
    | false => exact .rollback begun stmts known done holds (.done _)

end Scripts

/-! ### The log of a locked run -/

section Log

/-- **The log of a locked run**: which transaction left which trace, that each ended once, and what
the log holds of them. -/
structure LogBlocks (order : RowOrder) (m : TransactionManager) (ended : List TxnTrace)
    (blocks : List (TxnId × TxnTrace)) : Prop where
  ready : m.Ready
  traces : blocks.map Prod.snd = ended
  nodup : (blocks.map Prod.fst).Nodup
  closed : ∀ b ∈ blocks, ∃ txn, m.get b.1 = .ok txn ∧ txn.active = false
  committedIds : committedIds m.records = (blocks.filter fun b => b.2.committed).map Prod.fst
  writes : (∀ b ∈ blocks, ∀ wr ∈ b.2.writes, wr.FaithfulImages) →
    ∀ (p : TxnId → Prop) [DecidablePred p],
      writesWhere p m.records = blocks.flatMap fun b => if p b.1 then b.2.writes else []

variable {order : RowOrder} {m m' : TransactionManager} {ended : List TxnTrace}
  {blocks : List (TxnId × TxnTrace)}

/-- The records and the transactions of the manager are what they were. -/
theorem LogBlocks.congr (logged : LogBlocks order m ended blocks) (ready : m'.Ready)
    (records : m'.records = m.records)
    (others : ∀ b ∈ blocks, m'.transactions.lookup b.1 = m.transactions.lookup b.1) :
    LogBlocks order m' ended blocks where
  ready := ready
  traces := logged.traces
  nodup := logged.nodup
  closed := by
    intro b member
    obtain ⟨txn, known, inactive⟩ := logged.closed b member
    exact ⟨txn, get_eq_ok.mpr ((others b member).trans (get_eq_ok.mp known)), inactive⟩
  committedIds := records.symm ▸ logged.committedIds
  writes := records.symm ▸ logged.writes

/-- A transaction that ended is not one that is active. -/
theorem LogBlocks.ne_of_active (logged : LogBlocks order m ended blocks) {id : TxnId}
    {txn : Transaction} (known : m.get id = .ok txn) (active : txn.active = true) :
    ∀ b ∈ blocks, b.1 ≠ id := by
  intro b member same
  obtain ⟨txn', known', inactive⟩ := logged.closed b member
  rw [same, known] at known'
  cases known'
  rw [active] at inactive
  cases inactive

theorem LogBlocks.begin (logged : LogBlocks order m ended blocks) :
    LogBlocks order m.begin.2 ended blocks := by
  obtain ⟨_, _, _, hasWal, contents, given⟩ := @begin_ready m m.begin.2 m.nextId logged.ready rfl
  have isNew : m.nextId ∉ m.transactions :=
    fun old => absurd (logged.ready.given _ old) (lt_irrefl _)
  have transactions : m.begin.2.transactions = m.transactions.insert m.nextId { id := m.nextId } :=
    if_neg isNew
  refine ⟨⟨hasWal, given⟩, logged.traces, logged.nodup, fun b member => ?_, ?_,
    fun faithful p _ => ?_⟩
  · obtain ⟨txn, known, inactive⟩ := logged.closed b member
    have found := get_eq_ok.mp known
    have old : b.1 ≠ m.nextId := fun same => isNew (same ▸ Finmap.mem_of_lookup_eq_some found)
    refine ⟨txn, get_eq_ok.mpr ?_, inactive⟩
    rw [transactions, Finmap.lookup_insert_of_ne _ old, found]
  · rw [← committedIds_content, contents, committedIds_append, committedIds_content,
      logged.committedIds]
    exact List.append_nil _
  · rw [← writesWhere_content, contents, writesWhere_append, writesWhere_content,
      logged.writes faithful]
    simp [writesWhere, LogRecord.write?]

/-- **The end of a transaction adds its block.** -/
theorem LogBlocks.finish (logged : LogBlocks order m ended blocks) {id : TxnId} {txn : Transaction}
    (known : m.get id = .ok txn) (active : txn.active = true) (committed : Bool)
    (served : List (Request × Answer)) :
    LogBlocks order (m.close order txn (txn.finish committed) id (closingType committed))
      (ended ++ [⟨served, committed, txn.writeLog⟩])
      (blocks ++ [(id, ⟨served, committed, txn.writeLog⟩)]) := by
  have given := logged.ready.given id (Finmap.mem_of_lookup_eq_some (get_eq_ok.mp known))
  obtain ⟨ready, _, contents⟩ :=
    close_ready order txn (txn.finish committed) (closingType committed)
    logged.ready given
  obtain ⟨_, transactions⟩ :=
    close_frame order m txn (txn.finish committed) id (closingType committed)
  have others := logged.ne_of_active known active
  refine ⟨ready, ?_, ?_, fun b member => ?_, ?_, fun faithful p _ => ?_⟩
  · rw [List.map_append, logged.traces]
    rfl
  · rw [List.map_append, List.map_singleton, List.nodup_append]
    refine ⟨logged.nodup, List.nodup_singleton _, fun x member y last => ?_⟩
    obtain ⟨b, inside, rfl⟩ := List.mem_map.mp member
    rw [List.mem_singleton.mp last]
    exact others b inside
  · rcases List.mem_append.mp member with old | new
    · obtain ⟨txn', known', inactive⟩ := logged.closed b old
      refine ⟨txn', get_eq_ok.mpr ?_, inactive⟩
      rw [transactions, Finmap.lookup_insert_of_ne _ (others b old), get_eq_ok.mp known']
    · rw [List.mem_singleton.mp new]
      refine ⟨txn.finish committed, get_eq_ok.mpr ?_, ?_⟩
      · rw [transactions]
        exact Finmap.lookup_insert _
      · cases committed <;> rfl
  · rw [← committedIds_content, contents, committedIds_append, committedIds_append,
      committedIds_content,
      logged.committedIds, committedIds_dataRecords, List.filter_append, List.map_append]
    cases committed <;> rfl
  · rw [← writesWhere_content, contents, writesWhere_append, writesWhere_append,
      writesWhere_content,
      logged.writes fun b member => faithful b (List.mem_append_left _ member),
      writesWhere_dataRecords order id txn.writeLog
        (faithful (id, ⟨served, committed, txn.writeLog⟩)
          (List.mem_append_right _ (List.mem_singleton_self _))),
      List.flatMap_append]
    cases committed <;> simp [writesWhere, LogRecord.write?, closingType]

variable {stdSort : StdSort Row} {name : Str → Str} {Q : List Row → Prop} {s s' : Session}

/-- **A step of a locked run adds a block or nothing.** -/
theorem LockedStep.logBlocks {event : LockedEvent} {ledger : Ledger}
    (step : LockedStep order stdSort name Q s event s')
    (logged : ∃ blocks, LogBlocks order s.manager ledger.ended blocks) :
    ∃ blocks, LogBlocks order s'.manager (ledger.record event).ended blocks := by
  obtain ⟨blocks, logged⟩ := logged
  cases step with
  | begin => exact ⟨blocks, logged.begin⟩
  | acquireLock resource mode _ _ =>
    exact ⟨blocks, logged.congr ⟨logged.ready.hasWal, logged.ready.given⟩ rfl fun _ _ => rfl⟩
  | @serve _ id txn request answer known active _ served _ =>
    obtain ⟨writes, storage, _, rfl⟩ := (serve_iff known active).mp served
    have ready : (s.advance id txn writes storage).manager.Ready :=
      ⟨logged.ready.hasWal, idsGiven_advance logged.ready.given known writes storage⟩
    refine ⟨blocks, logged.congr ready rfl fun b member => ?_⟩
    exact Finmap.lookup_insert_of_ne _ (logged.ne_of_active known active b member)
  | @finish _ id txn committed known done _ =>
    have active := active_of_finish known done
    obtain ⟨storage, _, rfl⟩ := (finish_iff stdSort known active).mp done
    exact ⟨_, logged.finish known active committed (ledger.served id)⟩
  | rejected _ => exact ⟨blocks, logged⟩

theorem LockedRun.logBlocks {events : List LockedEvent}
    (run : LockedRun order stdSort name Q s events s') (ready : s.manager.Ready)
    (unused : s.manager.records = []) :
    ∃ blocks, LogBlocks order s'.manager (ledgerOf events).ended blocks := by
  induction run with
  | nil =>
    refine ⟨[], ready, rfl, List.nodup_nil, fun b member => absurd member List.not_mem_nil, ?_,
      fun _ p _ => ?_⟩
    · rw [unused]
      rfl
    · rw [unused]
      rfl
  | concat _ step ih =>
    rw [ledgerOf_concat]
    exact step.logBlocks ih

/-- The writes of some blocks, when the ids tell which of them committed. -/
theorem flatMap_blocks {p : TxnId → Prop} [DecidablePred p]
    (tells : ∀ b ∈ blocks, p b.1 ↔ b.2.committed) :
    (blocks.flatMap fun b => if p b.1 then b.2.writes else []) =
        committedWrites ((blocks.map Prod.snd).map TxnTrace.history) ∧
      (blocks.flatMap fun b => if ¬ p b.1 then b.2.writes else []) =
        rolledBackWrites ((blocks.map Prod.snd).map TxnTrace.history) := by
  induction blocks with
  | nil => exact ⟨rfl, rfl⟩
  | cons b rest ih =>
    obtain ⟨committed, rolledBack⟩ := ih fun b' member => tells b' (List.mem_cons_of_mem _ member)
    have own := tells b List.mem_cons_self
    rw [List.flatMap_cons, List.flatMap_cons, List.map_cons, List.map_cons, committedWrites_cons,
      rolledBackWrites_cons, committed, rolledBack]
    refine ⟨congrArg (· ++ _) (if_congr own rfl rfl), congrArg (· ++ _) ?_⟩
    rw [ite_not]
    exact if_congr own rfl rfl

/-- **The log, read back**: the writes of the transactions that committed, and of those that were
rolled back. -/
theorem LogBlocks.writesWhere_eq (logged : LogBlocks order m ended blocks)
    (faithful : ∀ trace ∈ ended, ∀ wr ∈ trace.writes, wr.FaithfulImages) :
    writesWhere (· ∈ MyDb.committedIds m.records) m.records =
        committedWrites (ended.map TxnTrace.history) ∧
      writesWhere (· ∉ MyDb.committedIds m.records) m.records =
        rolledBackWrites (ended.map TxnTrace.history) := by
  have faithful' : ∀ b ∈ blocks, ∀ wr ∈ b.2.writes, wr.FaithfulImages := by
    intro b member
    have inside : b.2 ∈ ended := logged.traces ▸ List.mem_map_of_mem member
    exact faithful b.2 inside
  have tells : ∀ b ∈ blocks, b.1 ∈ MyDb.committedIds m.records ↔ b.2.committed := by
    intro b member
    rw [logged.committedIds, List.mem_map]
    constructor
    · rintro ⟨b', inside, same⟩
      obtain ⟨member', committed⟩ := List.mem_filter.mp inside
      rw [← List.inj_on_of_nodup_map logged.nodup member' member same]
      exact committed
    · exact fun committed => ⟨b, List.mem_filter.mpr ⟨member, committed⟩, rfl⟩
  rw [logged.writes faithful', logged.writes faithful', ← logged.traces]
  exact flatMap_blocks tells

end Log

/-! ### Transactions that commit, and transactions that leave no trace -/

section Net

variable {order : RowOrder} {P : TableStorage → Prop} {s s' : Session} {id : TxnId}
  {txn : Transaction}

/-- **What the statements of a transaction write.** -/
theorem writes_of_statements (keyed : ∀ storage, P storage → storage.WellKeyed)
    {stmts : List DmlStatement} (run : Statements P id s stmts s')
    (known : s.manager.get id = .ok txn) (active : txn.active = true) (given : s.manager.IdsGiven)
    (holds : P s.storage) :
    ∃ log, s'.manager.get id = .ok (txn.extend log) ∧ s'.manager.IdsGiven ∧ P s'.storage ∧
      Writes s.storage log s'.storage ∧ ∀ wr ∈ log, ∃ stmt ∈ stmts, wr.type = stmt.kind := by
  induction run generalizing txn with
  | nil s => exact ⟨[], by rw [known, Transaction.extend_nil], given, holds, .nil _, by simp⟩
  | @cons s s₁ s₂ stmt rest keepsId done holds₁ _ ih =>
    obtain ⟨log, known₁, _, writes, kinds, _⟩ :=
      exec_writes known active keepsId (keyed _ holds) (keyed _ holds₁) done
    have given₁ := (@exec_managerStep default _ _ _ _ done).idsGiven given
    obtain ⟨log', known₂, given₂, holds₂, writes', kinds'⟩ := ih known₁ active given₁ holds₁
    refine ⟨log ++ log', ?_, given₂, holds₂, writes.append writes', fun wr member => ?_⟩
    · rw [known₂]
      simp [Transaction.extend]
    · rcases List.mem_append.mp member with first | later
      · exact ⟨stmt, List.mem_cons_self, kinds wr first⟩
      · obtain ⟨stmt', inside, kind⟩ := kinds' wr later
        exact ⟨stmt', List.mem_cons_of_mem _ inside, kind⟩

/-- **A serial run nets its committed writes**, when no transaction that is rolled back deletes. -/
theorem writes_of_serialRun (keyed : ∀ storage, P storage → storage.WellKeyed)
    {scripts : List TxnScript} {history : List TxnHistory}
    (run : SerialRun order P s scripts history s') (given : s.manager.IdsGiven)
    (holds : P s.storage)
    (noDelete : ∀ script ∈ scripts, script.commits = false → ∀ stmt ∈ script.statements,
      stmt.kind ≠ .delete) :
    Writes s.storage (committedWrites history) s'.storage := by
  induction run with
  | done s => exact .nil _
  | @commit s s₁ s₂ s₃ s₄ id txn stmts rest history begun stmtsRun known done holds₃ _ ih =>
    cases begun
    obtain ⟨known₁, given₁⟩ := get_begin given
    obtain ⟨log, known₂, given₂, _, writes, _⟩ :=
      writes_of_statements keyed stmtsRun known₁ rfl given₁ holds
    cases known.symm.trans known₂
    cases (commit_eq_ok known rfl).symm.trans done
    have given₃ := (@ManagerStep.finish order _ _ _ true (get_eq_ok.mp known) rfl).idsGiven given₂
    have later :=
      ih given₃ holds₃ fun script member => noDelete script (List.mem_cons_of_mem _ member)
    rw [committedWrites_cons, if_pos rfl]
    exact writes.append later
  | @rollback s s₁ s₂ s₃ s₄ id txn stmts rest history begun stmtsRun known done holds₃ _ ih =>
    cases begun
    obtain ⟨known₁, given₁⟩ := get_begin given
    obtain ⟨log, known₂, given₂, _, writes, kinds⟩ :=
      writes_of_statements keyed stmtsRun known₁ rfl given₁ holds
    cases known.symm.trans known₂
    cases (rollback_eq_ok known rfl).symm.trans done
    have given₃ := (@ManagerStep.finish order _ _ _ false (get_eq_ok.mp known) rfl).idsGiven given₂
    have later :=
      ih given₃ holds₃ fun script member => noDelete script (List.mem_cons_of_mem _ member)
    have undone : log.foldr undoWrite s₂.storage = s.storage := by
      refine writes.undo fun wr member => ?_
      obtain ⟨stmt, inside, kind⟩ := kinds wr member
      rw [kind]
      exact noDelete _ List.mem_cons_self rfl stmt inside
    rw [committedWrites_cons, if_neg Bool.false_ne_true, List.nil_append]
    have back : (Transaction.extend { id := s.manager.nextId } log).writeLog.foldr undoWrite
        s₂.storage = s.storage := undone
    rw [← back]
    exact later

end Net

/-! ### Recovery -/

section Recovery

variable {order : RowOrder} {stdSort : StdSort Row} {name : Str → Str} {s s' : Session}
  {events : List LockedEvent}

/-- The rows of a table can be told apart by their ids, and written to the log. -/
def LoggableRows (rows : List Row) : Prop := Keyed Row.id? rows ∧ ∀ row ∈ rows, FaithfulText row

theorem loggable_iff {storage : TableStorage} :
    LoggableStorage storage ↔ ∀ table, LoggableRows (storage.rows table) := forall_and.symm

/-- **The log of a serial run, read back.** -/
theorem RunOf.writesWhere_eq {history : List TxnHistory} (runOf : RunOf order s history s')
    (unused : s.manager.records = []) :
    writesWhere (· ∈ committedIds s'.manager.records) s'.manager.records = committedWrites history ∧
      writesWhere (· ∉ committedIds s'.manager.records) s'.manager.records =
        rolledBackWrites history := by
  have contents : s'.manager.records.map LogRecord.content =
      runLog order s.manager.nextId history := by
    rw [runOf.contents, unused]
    rfl
  have ids : committedIds s'.manager.records =
      committedIds (runLog order s.manager.nextId history) := by
    rw [← committedIds_content, contents]
  obtain ⟨committed, rolledBack⟩ := writesWhere_runLog order runOf.faithful
    (tells_committedIds order s.manager.nextId history)
  rw [ids]
  constructor
  · rw [← writesWhere_content, contents]
    exact committed
  · rw [← writesWhere_content, contents]
    exact rolledBack

/-- **A locked run beside the serial run of its transactions**: what is in its log. -/
structure Beside (order : RowOrder) (stdSort : StdSort Row) (name : Str → Str) (s s' : Session)
    (ended : List TxnTrace) (serial : Session) : Prop where
  serialTxns : SerialTxns order stdSort (fun storage => ∀ table, LoggableRows (storage.rows table))
    s ended serial
  statements : SerialRun order LoggableStorage s (ended.map TxnTrace.asScript)
    (ended.map TxnTrace.history) serial
  free : ∀ table, (∀ id, ¬ s'.Owns name id table) →
    s'.storage.lookup table = serial.storage.lookup table
  committed : writesWhere (· ∈ committedIds s'.manager.records) s'.manager.records =
    committedWrites (ended.map TxnTrace.history)
  rolledBack : writesWhere (· ∉ committedIds s'.manager.records) s'.manager.records =
    rolledBackWrites (ended.map TxnTrace.history)

theorem LockedRun.beside (ready : s.manager.Ready) (unused : s.manager.records = [])
    (quiet : s.Quiet) (loggable : LoggableStorage s.storage)
    (run : LockedRun order stdSort name LoggableRows s events s')
    (keepsId : ∀ trace ∈ (ledgerOf events).ended, trace.KeepsId) :
    ∃ serial, Beside order stdSort name s s' (ledgerOf events).ended serial := by
  obtain ⟨⟨_, _, storage, _, serial, settled⟩, _⟩ := run.consistent quiet (loggable_iff.mp loggable)
  obtain ⟨serialEnd, serialTxns, rfl, _⟩ := @serialTxns_of_serial order _ _ _ _ _ quiet.given serial
  have statements := serialRun_of_serialTxns serialTxns keepsId
  have sameP : (fun storage : TableStorage => ∀ table, LoggableRows (storage.rows table)) =
      LoggableStorage := by
    funext storage
    exact propext loggable_iff.symm
  rw [sameP] at statements
  have runOf := serialRun_runOf statements ready loggable
  obtain ⟨blocks, logged⟩ := run.logBlocks ready unused
  have faithful : ∀ trace ∈ (ledgerOf events).ended, ∀ wr ∈ trace.writes, wr.FaithfulImages :=
    fun trace member => runOf.faithful trace.history (List.mem_map_of_mem member)
  obtain ⟨committed, rolledBack⟩ := logged.writesWhere_eq faithful
  exact ⟨serialEnd, serialTxns, statements, settled.free, committed, rolledBack⟩

/-- **Recovery of a locked run's log is recovery of the serial run's log.** At every point of a
locked run, with transactions under way and ended in either manner: recovery gives the same from its
log as from the log of the serial run of the ended transactions, whatever storage it starts on. -/
theorem recover_lockedRun {wal : Wal} (fresh : s.manager = { wal := some wal })
    (unused : wal.appended = []) (loggable : LoggableStorage s.storage)
    (run : LockedRun order stdSort name LoggableRows s events s')
    (keepsId : ∀ trace ∈ (ledgerOf events).ended, trace.KeepsId) :
    ∃ serial, SerialTxns order stdSort (fun storage => ∀ table, LoggableRows (storage.rows table)) s
        (ledgerOf events).ended serial ∧
      (∀ table, (∀ id, ¬ s'.Owns name id table) →
        s'.storage.lookup table = serial.storage.lookup table) ∧
      ∀ target, recoverFrom s'.manager.records target =
        recoverFrom serial.manager.records target := by
  have noRecords : s.manager.records = [] := by
    rw [fresh]
    exact unused
  have ready := ready_of_fresh fresh
  obtain ⟨serial, beside⟩ := run.beside ready noRecords (quiet_of_fresh fresh) loggable keepsId
  refine ⟨serial, beside.serialTxns, beside.free, fun target => ?_⟩
  obtain ⟨committed, rolledBack⟩ :=
    (serialRun_runOf beside.statements ready loggable).writesWhere_eq noRecords
  rw [recoverFrom_eq_writes, recoverFrom_eq_writes, beside.committed, beside.rolledBack, committed,
    rolledBack]

/-- One transaction is rolled back, another is under way. -/
theorem recover_lockedRun_rolledBack : ∃ (events : List LockedEvent) (s' serial : Session),
    LockedRun default default id LoggableRows freshSession events s' ∧
      (ledgerOf events).ended.map TxnTrace.committed = [false] ∧
      ∀ target, recoverFrom s'.manager.records target =
        recoverFrom serial.manager.records target := by
  have run : LockedRun default default id LoggableRows freshSession _ _ :=
    .concat (.concat (.concat (.concat (.concat (.concat (.concat .nil
      .begin) .begin)
      (@LockedStep.acquireLock default default id _ _ 1 _ (str "users") .exclusive rfl rfl))
      (@LockedStep.serve default default id _ _ _ 1 _ (.dml (insertUser "1")) _ rfl rfl
        (show (⟨1, .exclusive⟩ : LockEntry) ∈ _ by decide) rfl (loggable_iff.mp (by decide))))
      (@LockedStep.finish default default id _ _ _ 1 _ false rfl rfl (loggable_iff.mp (by decide))))
      (@LockedStep.acquireLock default default id _ _ 2 _ (str "users") .exclusive rfl rfl))
      (@LockedStep.serve default default id _ _ _ 2 _ (.dml (insertUser "2")) _ rfl rfl
        (show (⟨2, .exclusive⟩ : LockEntry) ∈ _ by decide) rfl (loggable_iff.mp (by decide)))
  obtain ⟨serial, _, _, same⟩ := recover_lockedRun rfl rfl (by decide) run
    (List.forall_mem_singleton.mpr (List.forall_mem_singleton.mpr rfl))
  exact ⟨_, _, serial, run, rfl, same⟩

/-- **Crash recovery among concurrent transactions.** When every transaction that has ended has
committed, recovery of the first storage from the log gives, at any point of a locked run, exactly
what the ended transactions leave when they run one after the other; on a table that nobody has
locked exclusively that is what the storage holds. -/
theorem recover_lockedRun_commits {wal : Wal} (fresh : s.manager = { wal := some wal })
    (unused : wal.appended = []) (loggable : LoggableStorage s.storage)
    (run : LockedRun order stdSort name LoggableRows s events s')
    (keepsId : ∀ trace ∈ (ledgerOf events).ended, trace.KeepsId)
    (allCommit : ∀ trace ∈ (ledgerOf events).ended, trace.committed) :
    ∃ serial, SerialTxns order stdSort (fun storage => ∀ table, LoggableRows (storage.rows table)) s
        (ledgerOf events).ended serial ∧
      recoverFrom s'.manager.records s.storage = serial.storage ∧
      ∀ table, (∀ id, ¬ s'.Owns name id table) →
        (recoverFrom s'.manager.records s.storage).lookup table = s'.storage.lookup table := by
  have noRecords : s.manager.records = [] := by
    rw [fresh]
    exact unused
  have ready := ready_of_fresh fresh
  obtain ⟨serial, beside⟩ := run.beside ready noRecords (quiet_of_fresh fresh) loggable keepsId
  have noRollback : ∀ script ∈ (ledgerOf events).ended.map TxnTrace.asScript,
    script.commits = false →
      ∀ stmt ∈ script.statements, stmt.kind ≠ .delete := by
    intro script member rolledBack
    obtain ⟨trace, inside, rfl⟩ := List.mem_map.mp member
    exact absurd (allCommit trace inside)
      (by rw [show trace.committed = false from rolledBack]; simp)
  have writes := writes_of_serialRun (fun _ holds => holds.1) beside.statements ready.given loggable
    noRollback
  have committed : ∀ h ∈ (ledgerOf events).ended.map TxnTrace.history, h.committed := by
    intro h member
    obtain ⟨trace, inside, rfl⟩ := List.mem_map.mp member
    exact allCommit trace inside
  have recovered : recoverFrom s'.manager.records s.storage = serial.storage := by
    rw [recoverFrom_eq_writes, beside.committed, beside.rolledBack,
      rolledBackWrites_of_committed committed]
    exact writes.redo loggable.1
  refine ⟨serial, beside.serialTxns, recovered, fun table unowned => ?_⟩
  rw [recovered, beside.free table unowned]

/-- One transaction has committed, another is under way on the table it has locked. -/
theorem recover_lockedRun_commits_crash : ∃ (events : List LockedEvent) (s' serial : Session),
    LockedRun default default id LoggableRows freshSession events s' ∧
      (ledgerOf events).ended.map TxnTrace.committed = [true] ∧
      recoverFrom s'.manager.records freshSession.storage = serial.storage := by
  have run : LockedRun default default id LoggableRows freshSession _ _ :=
    .concat (.concat (.concat (.concat (.concat (.concat (.concat .nil
      .begin) .begin)
      (@LockedStep.acquireLock default default id _ _ 1 _ (str "users") .exclusive rfl rfl))
      (@LockedStep.serve default default id _ _ _ 1 _ (.dml (insertUser "1")) _ rfl rfl
        (show (⟨1, .exclusive⟩ : LockEntry) ∈ _ by decide) rfl (loggable_iff.mp (by decide))))
      (@LockedStep.finish default default id _ _ _ 1 _ true rfl rfl (loggable_iff.mp (by decide))))
      (@LockedStep.acquireLock default default id _ _ 2 _ (str "users") .exclusive rfl rfl))
      (@LockedStep.serve default default id _ _ _ 2 _ (.dml deleteUsers) _ rfl rfl
        (show (⟨2, .exclusive⟩ : LockEntry) ∈ _ by decide) rfl (loggable_iff.mp (by decide)))
  obtain ⟨serial, _, recovered, _⟩ := recover_lockedRun_commits rfl rfl (by decide) run
    (List.forall_mem_singleton.mpr (List.forall_mem_singleton.mpr rfl))
    (List.forall_mem_singleton.mpr rfl)
  exact ⟨_, _, serial, run, rfl, recovered⟩

end Recovery

end MyDb
