/-
**What a serial run leaves in the log.**

`serialRun_step` takes a run apart into transactions: each appends its Begin record, its data
records and its closing record (`txnLog`) under the next id, and its write log is the history of
every row (`TxnStep`). `runLog` is the log of a whole run, one transaction behind the other.

The records are compared by their contents, without their numbers: recovery does not look at those
(`recoverFrom_content`). `Logs` says of a step which contents it appends, and steps one after the
other append theirs one after the other, so nothing is said about the file here.
-/

import MyDatabaseEngine.Txn.History

namespace MyDb

open KeyedList VersionHistory

/-! ### The log of one transaction -/

section Contents

/-- A record without the numbers `append` gives it. Recovery reads neither. -/
def LogRecord.content (rec : LogRecord) : LogRecord := { rec with lsn := 0, prevLsn := 0 }

theorem committedIds_content (records : List LogRecord) :
    committedIds (records.map LogRecord.content) = committedIds records := by
  unfold committedIds
  rw [List.filter_map, List.map_map]
  rfl

theorem recoverFrom_content (records : List LogRecord) (storage : TableStorage) :
    recoverFrom (records.map LogRecord.content) storage = recoverFrom records storage := by
  unfold recoverFrom
  dsimp only
  rw [committedIds_content, List.foldl_map, List.foldr_map]
  rfl

namespace TransactionManager

/-- The records of the manager's log. -/
def records (manager : TransactionManager) : List LogRecord :=
  match manager.wal with
  | some wal => wal.appended
  | none => []

/-- The manager has a log, and its transactions carry ids it has already given out. -/
structure Ready (manager : TransactionManager) : Prop where
  hasWal : manager.wal.isSome
  given : ∀ id ∈ manager.transactions, id < manager.nextId

/-- The second manager is the first with more records in the log. -/
structure Logs (m m' : TransactionManager) (more : List LogRecord) : Prop where
  hasWal : m'.wal.isSome
  contents : m'.records.map LogRecord.content = m.records.map LogRecord.content ++ more
  nextId : m'.nextId = m.nextId
  transactions : m'.transactions = m.transactions

theorem Logs.trans {m m' m'' : TransactionManager} {more more' : List LogRecord}
    (first : Logs m m' more) (second : Logs m' m'' more') : Logs m m'' (more ++ more') :=
  ⟨second.hasWal, by rw [second.contents, first.contents, List.append_assoc],
    second.nextId.trans first.nextId, second.transactions.trans first.transactions⟩

theorem append_logs {m : TransactionManager} (hasWal : m.wal.isSome) (record : LogRecord) :
    Logs m (m.append record) [record.content] := by
  obtain ⟨wal, isWal⟩ := Option.isSome_iff_exists.mp hasWal
  refine ⟨?_, ?_, rfl, rfl⟩
  · simp [append, isWal]
  · simp [append, records, isWal, Wal.append, LogRecord.content]

theorem appendWrites_logs (order : RowOrder) (id : TxnId) (writes : List WriteRecord) :
    ∀ {m : TransactionManager}, m.wal.isSome →
      Logs m (writes.foldl (fun m wr => m.append (dataRecord order id wr)) m)
        (writes.map (dataRecord order id)) := by
  induction writes with
  | nil => exact fun hasWal => ⟨hasWal, by simp, rfl, rfl⟩
  | cons wr rest ih =>
    intro m hasWal
    have first := append_logs hasWal (dataRecord order id wr)
    exact first.trans (ih first.hasWal)

end TransactionManager

/-- The records of one transaction. -/
def txnLog (order : RowOrder) (id : TxnId) (h : TxnHistory) : List LogRecord :=
  { txnId := id, type := .begin } ::
    (h.writes.map (TransactionManager.dataRecord order id) ++
      [{ txnId := id, type := if h.committed then .commit else .abort }])

/-- The records of transactions one after the other, from the given id on. -/
def runLog (order : RowOrder) : TxnId → List TxnHistory → List LogRecord
  | _, [] => []
  | id, h :: rest => txnLog order id h ++ runLog order (id + 1) rest

open TransactionManager (Ready Logs dataRecord undoWrite append_logs appendWrites_logs)

/-- `begin` on a ready manager: a new active transaction, and its Begin record. -/
theorem begin_ready {m m' : TransactionManager} {id : TxnId} (ready : m.Ready)
    (begun : m.begin = (id, m')) :
    id = m.nextId ∧ m'.nextId = id + 1 ∧ m'.get id = .ok { id } ∧ m'.wal.isSome ∧
      m'.records.map LogRecord.content = m.records.map LogRecord.content ++
        [{ txnId := id, type := .begin }] ∧
      ∀ other ∈ m'.transactions, other < m'.nextId := by
  have isNew : m.nextId ∉ m.transactions := fun old => absurd (ready.given _ old) (lt_irrefl _)
  unfold TransactionManager.begin at begun
  dsimp only at begun
  rw [if_neg isNew] at begun
  cases begun
  have logs := append_logs (m := { m with
      nextId := m.nextId + 1, transactions := m.transactions.insert m.nextId { id := m.nextId } })
    ready.hasWal { txnId := m.nextId, type := .begin }
  refine ⟨rfl, logs.nextId, ?_, logs.hasWal, logs.contents, ?_⟩
  · rw [get_eq_ok, logs.transactions]
    exact Finmap.lookup_insert _
  · rw [logs.nextId, logs.transactions]
    intro other member
    rcases Finmap.mem_insert.mp member with rfl | old
    · exact Nat.lt_succ_self _
    · exact Nat.lt_succ_of_lt (ready.given other old)

theorem logOutcome_logs (order : RowOrder) {m : TransactionManager} (txn : Transaction) (id : TxnId)
    (outcome : RecordType) (hasWal : m.wal.isSome) :
    Logs m (m.logOutcome order txn id outcome)
      (txn.writeLog.map (dataRecord order id) ++ [{ txnId := id, type := outcome }]) := by
  have writes := appendWrites_logs order id txn.writeLog hasWal
  have logs := writes.trans (append_logs writes.hasWal { txnId := id, type := outcome })
  obtain ⟨wal, isWal⟩ := Option.isSome_iff_exists.mp logs.hasWal
  refine ⟨?_, ?_, logs.nextId, logs.transactions⟩
  · simp [TransactionManager.logOutcome, isWal]
  · refine Eq.trans ?_ logs.contents
    simp [TransactionManager.logOutcome, TransactionManager.records, isWal, Wal.flush]

/-- What `commit` and `rollback` leave in the manager. -/
theorem close_ready (order : RowOrder) (txn closed : Transaction) (outcome : RecordType)
    {m : TransactionManager} {id : TxnId} (ready : m.Ready) (ownId : id < m.nextId) :
    (m.close order txn closed id outcome).Ready ∧
      (m.close order txn closed id outcome).nextId = m.nextId ∧
      (m.close order txn closed id outcome).records.map LogRecord.content =
        m.records.map LogRecord.content ++
          (txn.writeLog.map (dataRecord order id) ++ [{ txnId := id, type := outcome }]) := by
  have logs := logOutcome_logs order txn id outcome ready.hasWal
  refine ⟨⟨logs.hasWal, fun other member => ?_⟩, logs.nextId, logs.contents⟩
  show other < (m.logOutcome order txn id outcome).nextId
  rw [logs.nextId]
  rcases Finmap.mem_insert.mp member with rfl | old
  · exact ownId
  · exact ready.given other (logs.transactions ▸ old)

end Contents

/-! ### The transactions of a run -/

section Steps

open TransactionManager (undoWrite)

/-- **One transaction of a run**: its records in the log, and its write log as the history of every
row. -/
structure TxnStep (order : RowOrder) (s : Session) (h : TxnHistory) (s' : Session) : Prop where
  ready : s'.manager.Ready
  nextId : s'.manager.nextId = s.manager.nextId + 1
  contents : s'.manager.records.map LogRecord.content =
    s.manager.records.map LogRecord.content ++ txnLog order s.manager.nextId h
  loggable : LoggableStorage s'.storage
  hasKey : ∀ wr ∈ h.writes, wr.HasKey
  faithful : ∀ wr ∈ h.writes, wr.FaithfulImages
  logOf : ∃ after : TableStorage, after.WellKeyed ∧ LogOf s.storage after h.writes ∧
    s'.storage = if h.committed then after else h.writes.foldr undoWrite after

/-- A transaction's statements, then its end. -/
theorem txnStep_close (order : RowOrder) {s s₁ s₂ : Session} {id : TxnId}
    {stmts : List DmlStatement} {txn : Transaction} (ready : s.manager.Ready)
    (loggable : LoggableStorage s.storage) (begun : s.begin = (id, s₁))
    (run : Statements LoggableStorage id s₁ stmts s₂) (known : s₂.manager.get id = .ok txn) :
    txn.active = true ∧ ∀ (committed : Bool) (closed : Transaction),
      LoggableStorage (if committed then s₂.storage else txn.writeLog.foldr undoWrite s₂.storage) →
      TxnStep order s ⟨committed, txn.writeLog⟩
        { manager := s₂.manager.close order txn closed id (if committed then .commit else .abort)
          storage :=
            if committed then s₂.storage else txn.writeLog.foldr undoWrite s₂.storage } := by
  cases begun
  obtain ⟨isNext, next, known₁, hasWal, contents, given⟩ := begin_ready ready rfl
  obtain ⟨log, known₂, frame, loggable₂, logOf, faithful⟩ :=
    statements_effect (fun _ holds => holds.1) run known₁ rfl loggable
  cases known.symm.trans known₂
  have ready₂ : s₂.manager.Ready := by
    refine ⟨frame.wal ▸ hasWal, fun other member => ?_⟩
    rw [frame.nextId]
    by_cases own : other = s.manager.nextId
    · rw [own, next]
      exact Nat.lt_succ_self _
    · refine given other (Finmap.lookup_isSome.mp ?_)
      rw [← frame.others other own]
      exact Finmap.lookup_isSome.mpr member
  have next₂ : s₂.manager.nextId = s.manager.nextId + 1 := frame.nextId.trans next
  have contents₂ : s₂.manager.records.map LogRecord.content =
      s.manager.records.map LogRecord.content ++
        [{ txnId := s.manager.nextId, type := .begin }] := by
    rw [← contents]
    unfold TransactionManager.records
    rw [frame.wal]
  refine ⟨rfl, fun committed closed loggable₃ => ?_⟩
  obtain ⟨ready₃, next₃, contents₃⟩ := close_ready order
    (Transaction.extend { id := s.manager.nextId } log) closed
    (if committed then .commit else .abort) ready₂
    (next₂.symm ▸ Nat.lt_succ_self s.manager.nextId : s.manager.nextId < s₂.manager.nextId)
  refine ⟨ready₃, next₃.trans next₂, ?_, loggable₃, logOf.hasKey,
    faithful fun _ holds => holds.2, s₂.storage, loggable₂.1, logOf, rfl⟩
  refine contents₃.trans ?_
  rw [contents₂, ← isNext]
  simp [txnLog]

/-- **A run, one transaction at a time.** -/
theorem serialRun_step {order : RowOrder} {s s' : Session} {scripts : List TxnScript}
    {h : TxnHistory} {history : List TxnHistory}
    (run : SerialRun order LoggableStorage s scripts (h :: history) s') (ready : s.manager.Ready)
    (loggable : LoggableStorage s.storage) :
    ∃ script rest s₁, scripts = script :: rest ∧ h.committed = script.commits ∧
      TxnStep order s h s₁ ∧ SerialRun order LoggableStorage s₁ rest history s' := by
  cases run with
  | @commit _ s₁ s₂ s₃ _ id txn stmts rest _ begun stmtsRun known done loggable₃ more =>
    obtain ⟨active, step⟩ := txnStep_close order ready loggable begun stmtsRun known
    cases (commit_eq_ok known active).symm.trans done
    exact ⟨_, rest, _, rfl, rfl, step true txn.commit loggable₃, more⟩
  | @rollback _ s₁ s₂ s₃ _ id txn stmts rest _ begun stmtsRun known done loggable₃ more =>
    obtain ⟨active, step⟩ := txnStep_close order ready loggable begun stmtsRun known
    cases (rollback_eq_ok known active).symm.trans done
    exact ⟨_, rest, _, rfl, rfl, step false txn.abort loggable₃, more⟩

end Steps

end MyDb
