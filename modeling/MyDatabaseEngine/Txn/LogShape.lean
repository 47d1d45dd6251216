/-
**The shape of the log.**

In any run of calls the log of a transaction is its Begin record and, once it has ended, its write
log as data records and one closing record, these next to each other (`LogShape`).
`managerStep_shape` shows each step to keep this, over whatever earlier records the log may hold;
`log_shape` is the result for a run of a new manager. The LSNs are consecutive values of a 64-bit
counter (`lsnsFrom`): a file whose last record has the greatest LSN makes the next one zero.
-/

import MyDatabaseEngine.Txn.Calls

namespace MyDb

open TransactionManager (Logs dataRecord append_logs)

/-- The records of one transaction. -/
def recordsOf (id : TxnId) (log : List LogRecord) : List LogRecord :=
  log.filter fun rec => rec.txnId = id

def beginRecord (id : TxnId) : LogRecord := { txnId := id, type := .begin }

/-- The records a transaction ends with. -/
def outcomeRecords (order : RowOrder) (id : TxnId) (txn : Transaction) : List LogRecord :=
  txn.writeLog.map (dataRecord order id) ++
    [{ txnId := id, type := closingType (txn.status = .committed) }]

/-- **The log of these transactions**: nothing of any other; of an active one its Begin record; of
one that has ended its Begin record and, further on, the records it ended with, in one piece. -/
structure LogShape (order : RowOrder) (transactions : Finmap fun _ : TxnId => Transaction)
    (log : List LogRecord) : Prop where
  known : ∀ rec ∈ log, rec.txnId ∈ transactions
  unfinished : ∀ {id txn}, transactions.lookup id = some txn → txn.active = true →
    recordsOf id log = [beginRecord id]
  finished : ∀ {id txn}, transactions.lookup id = some txn → txn.active = false →
    ∃ before later, log = before ++ outcomeRecords order id txn ++ later ∧
      recordsOf id before = [beginRecord id] ∧ recordsOf id later = []

section Shape

variable {order : RowOrder} {transactions transactions' : Finmap fun _ : TxnId => Transaction}
  {log more : List LogRecord} {id : TxnId} {txn : Transaction}

theorem recordsOf_append (id : TxnId) (log more : List LogRecord) :
    recordsOf id (log ++ more) = recordsOf id log ++ recordsOf id more := List.filter_append ..

theorem recordsOf_eq_nil {own : TxnId} (onlyOwn : ∀ rec ∈ more, rec.txnId = own)
    (different : id ≠ own) : recordsOf id more = [] := by
  refine List.filter_eq_nil_iff.mpr fun rec member => ?_
  rw [decide_eq_true_eq, onlyOwn rec member]
  exact Ne.symm different

theorem txnId_outcomeRecords (order : RowOrder) (id : TxnId) (txn : Transaction) :
    ∀ rec ∈ outcomeRecords order id txn, rec.txnId = id := by
  intro rec member
  rcases List.mem_append.mp member with data | closing
  · obtain ⟨wr, _, rfl⟩ := List.mem_map.mp data
    rfl
  · rw [List.mem_singleton.mp closing]

theorem logShape_nil : LogShape order ∅ [] :=
  ⟨fun _ member => absurd member List.not_mem_nil,
    fun found => absurd found (by simp), fun found => absurd found (by simp)⟩

/-- More records of one transaction, whose own shape is settled, leave every other's shape alone. -/
theorem LogShape.extend (shape : LogShape order transactions log) (own : TxnId)
    (others : ∀ id, id ≠ own → transactions'.lookup id = transactions.lookup id)
    (ownKnown : own ∈ transactions') (onlyOwn : ∀ rec ∈ more, rec.txnId = own)
    (unfinished : ∀ {txn}, transactions'.lookup own = some txn → txn.active = true →
      recordsOf own (log ++ more) = [beginRecord own])
    (finished : ∀ {txn}, transactions'.lookup own = some txn → txn.active = false →
      ∃ before later, log ++ more = before ++ outcomeRecords order own txn ++ later ∧
        recordsOf own before = [beginRecord own] ∧ recordsOf own later = []) :
    LogShape order transactions' (log ++ more) := by
  refine ⟨fun rec member => ?_, fun {id txn} found active => ?_, fun {id txn} found ended => ?_⟩
  · by_cases same : rec.txnId = own
    · rw [same]
      exact ownKnown
    · have old := (List.mem_append.mp member).resolve_right fun new => same (onlyOwn rec new)
      rw [← Finmap.lookup_isSome, others _ same, Finmap.lookup_isSome]
      exact shape.known rec old
  · by_cases same : id = own
    · subst same
      exact unfinished found active
    · rw [recordsOf_append, recordsOf_eq_nil onlyOwn same, List.append_nil]
      exact shape.unfinished (others id same ▸ found) active
  · by_cases same : id = own
    · subst same
      exact finished found ended
    · obtain ⟨before, later, rfl, begun, rest⟩ := shape.finished (others id same ▸ found) ended
      refine ⟨before, later ++ more, by rw [List.append_assoc], begun, ?_⟩
      rw [recordsOf_append, rest, recordsOf_eq_nil onlyOwn same, List.append_nil]

theorem LogShape.begin (shape : LogShape order transactions log) (new : id ∉ transactions) :
    LogShape order (transactions.insert id { id }) (log ++ [beginRecord id]) := by
  have unlogged : recordsOf id log = [] := by
    refine List.filter_eq_nil_iff.mpr fun rec member => ?_
    rw [decide_eq_true_eq]
    exact fun same => new (same ▸ shape.known rec member)
  refine shape.extend id (fun other different => Finmap.lookup_insert_of_ne _ different)
    (Finmap.mem_insert.mpr (Or.inl rfl))
      (fun rec member => by rw [List.mem_singleton.mp member]; rfl)
    (fun _ _ => ?_) fun found ended => ?_
  · rw [recordsOf_append, unlogged]
    simp [recordsOf, beginRecord]
  · rw [Finmap.lookup_insert] at found
    cases found
    exact absurd ended (by simp [Transaction.active])

theorem LogShape.write (shape : LogShape order transactions log)
    (found : transactions.lookup id = some txn) (active : txn.active = true)
    (records : List WriteRecord) :
    LogShape order (transactions.insert id (txn.extend records)) log := by
  have same : LogShape order (transactions.insert id (txn.extend records)) (log ++ []) :=
    shape.extend id
    (fun other different => Finmap.lookup_insert_of_ne _ different)
    (Finmap.mem_insert.mpr (Or.inl rfl)) (fun _ member => absurd member List.not_mem_nil)
    (fun _ _ => by rw [List.append_nil]; exact shape.unfinished found active)
    fun found' ended => by
      rw [Finmap.lookup_insert] at found'
      cases found'
      exact absurd (active.symm.trans ended) (by decide)
  rwa [List.append_nil] at same

theorem LogShape.finish (shape : LogShape order transactions log)
    (found : transactions.lookup id = some txn) (active : txn.active = true) (committed : Bool) :
    LogShape order (transactions.insert id (txn.finish committed))
      (log ++ outcomeRecords order id (txn.finish committed)) := by
  refine shape.extend id (fun other different => Finmap.lookup_insert_of_ne _ different)
    (Finmap.mem_insert.mpr (Or.inl rfl)) (txnId_outcomeRecords order id _)
    (fun found' stillActive => ?_) fun found' _ => ?_
  · rw [Finmap.lookup_insert] at found'
    cases found'
    cases committed <;> exact absurd stillActive (by simp [Transaction.active, Transaction.finish,
      Transaction.commit, Transaction.abort])
  · rw [Finmap.lookup_insert] at found'
    cases found'
    exact ⟨log, [], by rw [List.append_nil], shape.unfinished found active, rfl⟩

/-- **All records of a transaction.** -/
theorem LogShape.recordsOf_eq (shape : LogShape order transactions log)
    (found : transactions.lookup id = some txn) :
    recordsOf id log = beginRecord id :: if txn.active then []
      else outcomeRecords order id txn := by
  cases active : txn.active with
  | true => exact shape.unfinished found active
  | false =>
    obtain ⟨before, later, rfl, begun, rest⟩ := shape.finished found active
    have own : recordsOf id (outcomeRecords order id txn) = outcomeRecords order id txn :=
      List.filter_eq_self.mpr fun rec member =>
        decide_eq_true (txnId_outcomeRecords order id txn rec member)
    rw [recordsOf_append, recordsOf_append, begun, rest, own]
    simp

end Shape

/-! ### Every step keeps the shape -/

section Steps

/-- The manager's log is some earlier records and the log of its transactions. -/
structure ShapedAfter (order : RowOrder) (earlier : List LogRecord) (m : TransactionManager) :
    Prop where
  hasWal : m.wal.isSome
  given : m.IdsGiven
  shaped : ∃ log, m.records.map LogRecord.content = earlier ++ log ∧
    LogShape order m.transactions log

/-- **A step keeps the shape of the log.** -/
theorem managerStep_shape {order : RowOrder} {earlier : List LogRecord} {m m' : TransactionManager}
    (step : ManagerStep order m m') (shaped : ShapedAfter order earlier m) :
    ShapedAfter order earlier m' := by
  have given := step.idsGiven shaped.given
  obtain ⟨hasWal, oldGiven, log, contents, shape⟩ := shaped
  cases step with
  | begin =>
    have new : m.nextId ∉ m.transactions := fun old => absurd (oldGiven _ old) (lt_irrefl _)
    obtain ⟨_, _, _, walLeft, contents', _⟩ :=
      @begin_ready m m.begin.2 m.nextId ⟨hasWal, oldGiven⟩ rfl
    refine ⟨walLeft, given, log ++ [beginRecord m.nextId], ?_, ?_⟩
    · rw [contents', contents, List.append_assoc]
      rfl
    · have transactions : m.begin.2.transactions = m.transactions.insert m.nextId
          { id := m.nextId } :=
        if_neg new
      rw [transactions]
      exact shape.begin new
  | write records found active =>
    exact ⟨hasWal, given, log, contents, shape.write found active records⟩
  | @finish id txn committed found active =>
    obtain ⟨ready, _, contents'⟩ := close_ready order txn (txn.finish committed)
      (closingType committed) ⟨hasWal, oldGiven⟩ (oldGiven id (Finmap.mem_of_lookup_eq_some found))
    obtain ⟨_, transactions⟩ :=
      close_frame order m txn (txn.finish committed) id (closingType committed)
    refine ⟨ready.hasWal, given, log ++ outcomeRecords order id (txn.finish committed), ?_, ?_⟩
    · rw [contents', contents, List.append_assoc]
      cases committed <;> rfl
    · rw [transactions]
      exact shape.finish found active committed
  | same => exact ⟨hasWal, given, log, contents, shape⟩

end Steps

/-! ### The numbers -/

section Numbers

/-- The next `count` values of the counter of a log. -/
def lsnsFrom (first : LSN) (count : Nat) : List LSN := (List.range' first count).map (· % 2 ^ 64)

/-- The records appended so far are numbered from `first` on. -/
structure Wal.NumberedFrom (first : LSN) (wal : Wal) : Prop where
  lsns : wal.appended.map LogRecord.lsn = lsnsFrom first wal.appended.length
  next : wal.nextLsn = (first + wal.appended.length) % 2 ^ 64

theorem Wal.NumberedFrom.append {first : LSN} {wal : Wal} (numbered : wal.NumberedFrom first)
    (record : LogRecord) : (wal.append record).2.NumberedFrom first := by
  constructor
  · simp [Wal.append, lsnsFrom, numbered.lsns, numbered.next, List.range'_concat]
  · simp [Wal.append, numbered.next, Nat.add_assoc]

/-- What `append` and `flush` keep of the log object, every step keeps. -/
theorem managerStep_wal {order : RowOrder} {P : Wal → Prop}
    (append : ∀ wal record, P wal → P (wal.append record).2) (flush : ∀ wal, P wal → P wal.flush)
    {m m' : TransactionManager} (step : ManagerStep order m m') (holds : ∀ wal ∈ m.wal, P wal) :
    ∀ wal ∈ m'.wal, P wal := by
  have appended : ∀ {m : TransactionManager} (record : LogRecord), (∀ wal ∈ m.wal, P wal) →
      ∀ wal ∈ (m.append record).wal, P wal := by
    intro m record holds wal member
    obtain ⟨old, isOld, rfl⟩ := Option.mem_map.mp member
    exact append old record (holds old isOld)
  have loop : ∀ (id : TxnId) (log : List WriteRecord) {m : TransactionManager},
      (∀ wal ∈ m.wal, P wal) →
        ∀ wal ∈ (log.foldl (fun m wr => m.append (dataRecord order id wr)) m).wal, P wal := by
    intro id log
    induction log with
    | nil => exact fun holds => holds
    | cons wr rest ih => exact fun holds => ih (appended _ holds)
  cases step with
  | begin => exact appended _ holds
  | write => exact holds
  | @finish id txn committed found active =>
    intro wal member
    obtain ⟨old, isOld, rfl⟩ := Option.mem_map.mp member
    exact flush old (appended _ (loop id txn.writeLog holds) old isOld)
  | same => exact holds

end Numbers

/-! ### A run of a new manager -/

section Run

/-- A commit or rollback that throws leaves the session as it was. -/
theorem throws_unchanged {order : RowOrder} {s s' : Session} {id : TxnId} {fault : Fault}
    (threw : Session.commitCall order id s = .error fault s' ∨
      Session.rollbackCall order id s = .error fault s') : s' = s := by
  rcases threw with threw | threw
  · rw [Session.commitCall_eq] at threw
    split at threw
    · cases threw
    · cases threw
      rfl
  · rw [Session.rollbackCall_eq] at threw
    split at threw
    · cases threw
    · cases threw
      rfl

/-- **The log after any run of calls.** Its records are numbered one after the other, modulo `2 ^
64`; the records of each transaction are one Begin, and nothing more while it is active; once it has
ended, its write log as data records and one closing record follow in one piece. A commit or
rollback that throws changes nothing. -/
theorem log_shape {order : RowOrder} {s s' : Session} {wal : Wal} {calls : List SessionCall}
    (fresh : s.manager = { wal := some wal }) (unused : wal.appended = [])
    (run : CallRun order s calls s') :
    s'.manager.records.map LogRecord.lsn = lsnsFrom wal.nextLsn s'.manager.records.length ∧
    LogShape order s'.manager.transactions (s'.manager.records.map LogRecord.content) ∧
    (∀ id txn, s'.manager.get id = .ok txn →
      recordsOf id (s'.manager.records.map LogRecord.content) =
        beginRecord id :: if txn.active then [] else outcomeRecords order id txn) ∧
    ∀ id fault s'', Session.commitCall order id s' = .error fault s'' ∨
      Session.rollbackCall order id s' = .error fault s'' → s'' = s' := by
  have start : ShapedAfter order [] s.manager := by
    rw [fresh]
    refine ⟨rfl, fun id member => absurd member Finmap.notMem_empty, [], ?_, logShape_nil⟩
    show wal.appended.map LogRecord.content = _
    rw [unused]
    rfl
  have numbered : ∀ w ∈ s.manager.wal, Wal.NumberedFrom wal.nextLsn w := by
    rw [fresh]
    rintro w ⟨⟩
    constructor
    · simp [unused, lsnsFrom]
    · rw [unused]
      exact (Nat.mod_eq_of_lt wal.nextLsn_lt).symm
  obtain ⟨hasWal, _, log, contents, shape⟩ := run.keeps managerStep_shape start
  rw [List.nil_append] at contents
  rw [← contents] at shape
  refine ⟨?_, shape, fun id txn known => shape.recordsOf_eq (get_eq_ok.mp known),
    fun id fault s'' threw => throws_unchanged threw⟩
  obtain ⟨w, isWal⟩ := Option.isSome_iff_exists.mp hasWal
  have lsns := (run.keeps (managerStep_wal (P := Wal.NumberedFrom wal.nextLsn)
    (fun _ record holds => holds.append record) fun _ holds => ⟨holds.lsns, holds.next⟩)
      numbered w isWal).lsns
  simpa only [TransactionManager.records, isWal] using lsns

/-- Two transactions interleaved: the second commits while the first runs on, and a third is asked
for. -/
theorem log_shape_interleaved : ∃ s' : Session,
    CallRun default freshSession
      [.begin, .begin, .exec 1 (insertUser "1"), .commit 2, .rollback 1, .commit 3] s' ∧
    s'.manager.records.map LogRecord.lsn =
      lsnsFrom (Wal.openFile []).nextLsn s'.manager.records.length ∧
    LogShape default s'.manager.transactions (s'.manager.records.map LogRecord.content) ∧
    (∀ id txn, s'.manager.get id = .ok txn →
      recordsOf id (s'.manager.records.map LogRecord.content) =
        beginRecord id :: if txn.active then [] else outcomeRecords default id txn) ∧
    ∀ id fault s'', Session.commitCall default id s' = .error fault s'' ∨
      Session.rollbackCall default id s' = .error fault s'' → s'' = s' := by
  have run : CallRun default freshSession
      [.begin, .begin, .exec 1 (insertUser "1"), .commit 2, .rollback 1, .commit 3] _ :=
    .cons (.begin _) (.cons (.begin _) (.cons (.exec rfl) (.cons (.commit _ 2)
      (.cons (.rollback _ 1) (.cons (.commit _ 3) (.nil _))))))
  exact ⟨_, run, @log_shape default freshSession _ (Wal.openFile []) _ rfl rfl run⟩

end Run

end MyDb
