/-
**Sessions in succession on one log.**

Every new manager counts its transactions from 1 again, and recovery tells transactions apart by id
over the whole log. `replays_committed_iff`: over the log of any sessions, recovery replays the data
records of exactly the transactions that committed in their own session if and only if no
transaction that wrote something and was rolled back shares its id with one that committed in
another session.

`Sessions` are any number of new managers on one log, each with any calls in any order. What a
session appends has the shape of a log of its own (`sessions_shape`), whatever stood there before,
so its Commit records are those of the transactions that committed in it. In the counterexample the
first session rolls transaction 1 back and the second one commits a transaction 1 that did nothing.
-/

import MyDatabaseEngine.Txn.LogShape
import MyDatabaseEngine.Txn.Recovery

namespace MyDb

open TransactionManager (dataRecord)

/-! ### What recovery replays -/

/-- Recovery from these records replays the record: the test that both its loops make. -/
def Replays (records : List LogRecord) (rec : LogRecord) : Prop := rec.txnId ∈ committedIds records

instance (records : List LogRecord) (rec : LogRecord) : Decidable (Replays records rec) :=
  inferInstanceAs (Decidable (_ ∈ _))

/-! ### One session's records -/

section Session

variable {order : RowOrder} {m : TransactionManager} {log : List LogRecord}

theorem isData_dataRecord (order : RowOrder) (id : TxnId) (wr : WriteRecord) :
    (dataRecord order id wr).IsData := by
  unfold LogRecord.IsData
  cases type : wr.type <;> simp [LogRecord.write?, dataRecord, type]

/-- A record of the log is a Begin, a write of its transaction, or its closing record. -/
theorem LogShape.record_cases (shape : LogShape order m.transactions log) {rec : LogRecord}
    (member : rec ∈ log) :
    ∃ txn, m.get rec.txnId = .ok txn ∧ (rec = beginRecord rec.txnId ∨ txn.active = false ∧
      ((∃ wr ∈ txn.writeLog, rec = dataRecord order rec.txnId wr) ∨
        rec = { txnId := rec.txnId, type := closingType (txn.status = .committed) })) := by
  obtain ⟨txn, found⟩ := Finmap.mem_iff.mp (shape.known rec member)
  have own : rec ∈ recordsOf rec.txnId log := List.mem_filter.mpr ⟨member, decide_eq_true rfl⟩
  refine ⟨txn, get_eq_ok.mpr found, ?_⟩
  rw [shape.recordsOf_eq found] at own
  rcases List.mem_cons.mp own with begins | more
  · exact Or.inl begins
  · cases active : txn.active with
    | true => simp [active] at more
    | false =>
      rw [active, if_neg Bool.false_ne_true] at more
      rcases List.mem_append.mp more with data | closing
      · obtain ⟨wr, inside, same⟩ := List.mem_map.mp data
        exact Or.inr ⟨rfl, Or.inl ⟨wr, inside, same.symm⟩⟩
      · exact Or.inr ⟨rfl, Or.inr (List.mem_singleton.mp closing)⟩

/-- The records a transaction ended with are in the log. -/
theorem LogShape.outcome_mem (shape : LogShape order m.transactions log) {id : TxnId}
    {txn : Transaction} (known : m.get id = .ok txn) (ended : txn.active = false) :
    ∀ rec ∈ outcomeRecords order id txn, rec ∈ log := by
  obtain ⟨before, later, rfl, -, -⟩ := shape.finished (get_eq_ok.mp known) ended
  intro rec member
  exact List.mem_append_left _ (List.mem_append_right _ member)

/-- **A session's Commit records are those of the transactions that committed in it.** -/
theorem LogShape.mem_committedIds_iff (shape : LogShape order m.transactions log) {id : TxnId} :
    id ∈ committedIds log ↔ m.HasCommitted id := by
  constructor
  · intro member
    obtain ⟨rec, inside, rfl⟩ := List.mem_map.mp member
    obtain ⟨inLog, isCommit⟩ := List.mem_filter.mp inside
    rw [decide_eq_true_eq] at isCommit
    obtain ⟨txn, known, begins | ⟨-, ⟨wr, -, data⟩ | closing⟩⟩ := shape.record_cases inLog
    · rw [begins] at isCommit
      cases isCommit
    · have isData := isData_dataRecord order rec.txnId wr
      rw [← data] at isData
      simp [LogRecord.IsData, LogRecord.write?, isCommit] at isData
    · refine ⟨txn, known, ?_⟩
      by_contra uncommitted
      rw [closing, decide_eq_false uncommitted] at isCommit
      cases isCommit
  · rintro ⟨txn, known, committed⟩
    have ended : txn.active = false := by simp [Transaction.active, committed]
    have closing : { txnId := id, type := .commit } ∈ outcomeRecords order id txn := by
      unfold outcomeRecords
      rw [decide_eq_true committed]
      exact List.mem_append_right _ (List.mem_singleton.mpr rfl)
    exact List.mem_map.mpr ⟨_, List.mem_filter.mpr
      ⟨shape.outcome_mem known ended _ closing, decide_eq_true rfl⟩, rfl⟩

/-- A data record's transaction has ended, and wrote something. -/
theorem LogShape.ended_of_isData (shape : LogShape order m.transactions log) {rec : LogRecord}
    (member : rec ∈ log) (isData : rec.IsData) :
    ∃ txn, m.get rec.txnId = .ok txn ∧ txn.active = false ∧ txn.writeLog ≠ [] := by
  obtain ⟨txn, known, begins | ⟨ended, ⟨wr, inside, -⟩ | closing⟩⟩ := shape.record_cases member
  · rw [begins] at isData
    cases isData
  · exact ⟨txn, known, ended, List.ne_nil_of_mem inside⟩
  · rw [closing] at isData
    refine absurd isData ?_
    unfold closingType
    split <;> simp [LogRecord.IsData, LogRecord.write?]

end Session

/-! ### Sessions -/

/-- What a session leaves: its manager, and the records it appended. -/
structure SessionLog where
  manager : TransactionManager
  records : List LogRecord

/-- **Sessions one after the other on a log**, each with a new manager and any calls. -/
inductive Sessions (order : RowOrder) : Wal → List SessionLog → Wal → Prop
  | done (wal : Wal) : Sessions order wal [] wal
  | session {wal wal' wal'' : Wal} {s s' : Session} {calls : List SessionCall}
      {rest : List SessionLog} :
      s.manager = { wal := some wal } → CallRun order s calls s' →
      s'.manager.wal = some wal' → Sessions order wal' rest wal'' →
      Sessions order wal (⟨s'.manager, wal'.appended.drop wal.appended.length⟩ :: rest) wal''

section Sessions

variable {order : RowOrder} {wal wal' : Wal} {logs : List SessionLog}

/-- A session's records, after those the log held before. -/
theorem session_shape {s s' : Session} {calls : List SessionCall}
    (fresh : s.manager = { wal := some wal }) (run : CallRun order s calls s')
    (left : s'.manager.wal = some wal') :
    wal'.appended = wal.appended ++ wal'.appended.drop wal.appended.length ∧
      LogShape order s'.manager.transactions
        ((wal'.appended.drop wal.appended.length).map LogRecord.content) := by
  have start : ShapedAfter order (wal.appended.map LogRecord.content) s.manager := by
    rw [fresh]
    exact ⟨rfl, fun id member => absurd member Finmap.notMem_empty, [],
      (List.append_nil _).symm, logShape_nil⟩
  have earlier : ∀ w ∈ s.manager.wal, wal.appended <+: w.appended := by
    rw [fresh]
    rintro w ⟨⟩
    exact List.prefix_rfl
  have grown := run.keeps (managerStep_wal (P := fun w => wal.appended <+: w.appended)
    (fun w record holds => holds.trans (List.prefix_append _ _)) fun _ holds => holds)
      earlier wal' left
  obtain ⟨more, grown⟩ := grown
  have added : wal'.appended.drop wal.appended.length = more := by
    rw [← grown, List.drop_left]
  obtain ⟨_, _, log, contents, shape⟩ := run.keeps managerStep_shape start
  unfold TransactionManager.records at contents
  rw [left] at contents
  dsimp only at contents
  rw [← grown, List.map_append] at contents
  rw [added]
  refine ⟨grown.symm, ?_⟩
  rw [List.append_cancel_left contents]
  exact shape

/-- **The log after the sessions**: each session's records, in turn. -/
theorem sessions_shape (run : Sessions order wal logs wal') :
    wal'.appended = wal.appended ++ logs.flatMap SessionLog.records ∧
      ∀ log ∈ logs,
        LogShape order log.manager.transactions (log.records.map LogRecord.content) := by
  induction run with
  | done wal => exact ⟨(List.append_nil _).symm, fun _ member => absurd member List.not_mem_nil⟩
  | session fresh run left _ ih =>
    obtain ⟨grown, shape⟩ := session_shape fresh run left
    obtain ⟨grownRest, shapes⟩ := ih
    refine ⟨?_, fun log member => ?_⟩
    · rw [grownRest, List.flatMap_cons, ← List.append_assoc, ← grown]
    · rcases List.mem_cons.mp member with rfl | member
      · exact shape
      · exact shapes log member

/-- The committed ids of the whole log are those of its sessions. -/
theorem mem_committedIds_sessions (unused : wal.appended = []) (run : Sessions order wal logs wal')
    {id : TxnId} :
    id ∈ committedIds wal'.appended ↔ ∃ log ∈ logs, log.manager.HasCommitted id := by
  obtain ⟨grown, shapes⟩ := sessions_shape run
  have pieces : ∀ logs : List SessionLog, committedIds (logs.flatMap SessionLog.records) =
      logs.flatMap fun log => committedIds log.records := by
    intro logs
    induction logs with
    | nil => rfl
    | cons log rest ih => rw [List.flatMap_cons, committedIds_append, ih, List.flatMap_cons]
  rw [grown, unused, List.nil_append, pieces, List.mem_flatMap]
  refine exists_congr fun log => and_congr_right fun member => ?_
  rw [← committedIds_content, (shapes log member).mem_committedIds_iff]

/-- **When recovery replays exactly what committed in its own session.** -/
theorem replays_committed_iff (unused : wal.appended = []) (run : Sessions order wal logs wal') :
    (∀ log ∈ logs, ∀ rec ∈ log.records, rec.IsData →
      (Replays wal'.appended rec ↔ log.manager.HasCommitted rec.txnId)) ↔
    ∀ log ∈ logs, ∀ id txn, log.manager.get id = .ok txn → txn.status = .aborted →
      txn.writeLog ≠ [] → ∀ other ∈ logs, ¬ other.manager.HasCommitted id := by
  have shapes := (sessions_shape run).2
  constructor
  · intro exact' log member id txn known aborted wrote other inside committed
    obtain ⟨wr, isWrite⟩ := List.exists_mem_of_ne_nil _ wrote
    have ended : txn.active = false := by simp [Transaction.active, aborted]
    have inOutcome : dataRecord order id wr ∈ outcomeRecords order id txn :=
      List.mem_append_left _ (List.mem_map_of_mem isWrite)
    obtain ⟨rec, inLog, content⟩ :=
      List.mem_map.mp ((shapes log member).outcome_mem known ended _ inOutcome)
    have isData : rec.IsData := by
      have data := isData_dataRecord order id wr
      rw [← content] at data
      exact data
    have ownId : rec.txnId = id := congrArg LogRecord.txnId content
    have replayed : Replays wal'.appended rec := by
      unfold Replays
      rw [mem_committedIds_sessions unused run, ownId]
      exact ⟨other, inside, committed⟩
    obtain ⟨txn', known', committed'⟩ := (exact' log member rec inLog isData).mp replayed
    rw [ownId, known] at known'
    cases known'
    rw [aborted] at committed'
    cases committed'
  · intro apart log member rec inLog isData
    unfold Replays
    rw [mem_committedIds_sessions unused run]
    constructor
    · rintro ⟨other, inside, committed⟩
      obtain ⟨txn, known, ended, wrote⟩ := (shapes log member).ended_of_isData
        (List.mem_map_of_mem inLog) isData
      cases status : txn.status with
      | active => simp [Transaction.active, status] at ended
      | committed => exact ⟨txn, known, status⟩
      | aborted => exact absurd committed (apart log member _ txn known status wrote other inside)
    · exact fun committed => ⟨log, member, committed⟩

end Sessions

/-! ### Two sessions -/

section Witness

/-- A committed INSERT, and a rolled-back one under the next id. -/
def committedCalls : List SessionCall := [.begin, .exec 1 (insertUser "1"), .commit 1]

def rolledBackCalls : List SessionCall := [.begin, .exec 1 (insertUser "1"), .rollback 1]

def laterCalls : List SessionCall := [.begin, .begin, .exec 2 (insertUser "2"), .rollback 2]

/-- One session commits transaction 1, the next one rolls back transaction 2. -/
theorem replays_committed_iff_two : ∃ first second wal',
    Sessions default (Wal.openFile []) [first, second] wal' ∧
    1 ∈ committedIds first.records ∧ (∃ rec ∈ second.records, rec.IsData) ∧
    ((∀ log ∈ [first, second], ∀ rec ∈ log.records, rec.IsData →
      (Replays wal'.appended rec ↔ log.manager.HasCommitted rec.txnId)) ↔
    ∀ log ∈ [first, second], ∀ id txn, log.manager.get id = .ok txn → txn.status = .aborted →
      txn.writeLog ≠ [] → ∀ other ∈ [first, second], ¬ other.manager.HasCommitted id) := by
  have calls : CallRun default freshSession committedCalls _ :=
    .cons (.begin _) (.cons (.exec rfl) (.cons (.commit _ 1) (.nil _)))
  have calls' : ∀ wal, CallRun default { freshSession with manager := { wal := some wal } }
      laterCalls _ :=
    fun _ => .cons (.begin _)
      (.cons (.begin _) (.cons (.exec rfl) (.cons (.rollback _ 2) (.nil _))))
  have run : Sessions default (Wal.openFile []) [_, _] _ :=
    .session rfl calls (Option.some_get (by decide +kernel)).symm
      (.session rfl (calls' _) (Option.some_get (by decide +kernel)).symm (.done _))
  exact ⟨_, _, _, run, by decide +kernel, by decide +kernel, replays_committed_iff rfl run⟩

/-- **Recovery replays a rolled-back record because another session's transaction 1 committed.** -/
theorem recovery_replays_rolled_back :
    ¬ ∀ (order : RowOrder) (wal wal' : Wal) (logs : List SessionLog), wal.appended = [] →
      Sessions order wal logs wal' → ∀ log ∈ logs, ∀ rec ∈ log.records, rec.IsData →
        (Replays wal'.appended rec ↔ log.manager.HasCommitted rec.txnId) := by
  intro claim
  have calls : CallRun default freshSession rolledBackCalls _ :=
    .cons (.begin _) (.cons (.exec rfl) (.cons (.rollback _ 1) (.nil _)))
  have calls' : ∀ wal, CallRun default { freshSession with manager := { wal := some wal } }
      [.begin, .commit 1] _ := fun _ => .cons (.begin _) (.cons (.commit _ 1) (.nil _))
  have run : Sessions default (Wal.openFile []) [_, _] _ :=
    .session rfl calls (Option.some_get (by decide +kernel)).symm
      (.session rfl (calls' _) (Option.some_get (by decide +kernel)).symm (.done _))
  obtain ⟨txn, known, committed⟩ := (claim default _ _ _ rfl run _ List.mem_cons_self
    { dataRecord default 1 (insertRecord (str "users") (idRow "1")) with lsn := 2 }
    (by decide +kernel) (by decide +kernel)).mp (by decide +kernel)
  have status := (congrArg (Option.map Transaction.status) (get_eq_ok.mp known)).trans
    (congrArg some committed)
  exact absurd status (by decide +kernel)

end Witness

end MyDb
