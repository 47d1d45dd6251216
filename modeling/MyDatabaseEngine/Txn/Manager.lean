/-
**The transaction manager** (`include/txn_manager.h`).

`commit` and `rollback` throw before they change anything when the transaction is unknown or no
longer active. Both append the transaction's write log and one closing record to the log in one go;
nothing is appended while the transaction runs, apart from its Begin record.

`rollback` undoes the write log from its end, on the storage it is given: an INSERT by erasing the
rows with its key, an UPDATE and a DELETE alike by overwriting the first row that has the key with
the old row, if there is one. Then it writes the records it has just undone to the log, as `commit`
does, and an Abort behind them. The locks go last, in both.
-/

import MyDatabaseEngine.Txn.Wal
import MyDatabaseEngine.Txn.LockManager

namespace MyDb

structure TransactionManager where
  nextId : TxnId := 1
  transactions : Finmap (fun _ : TxnId => Transaction) := ∅
  lockManager : LockManager := ∅
  wal : Option Wal := none

namespace TransactionManager

/-- `if (wal_) wal_->append(record);` -/
def append (record : LogRecord) (manager : TransactionManager) : TransactionManager :=
  { manager with wal := manager.wal.map fun wal => (wal.append record).2 }

/-- `begin`: the new transaction's id. The Begin record's other fields are never set; nothing reads
them. -/
def begin (manager : TransactionManager) : TxnId × TransactionManager :=
  let id := manager.nextId
  let manager :=
    { manager with
      nextId := id + 1
      transactions :=
        if id ∈ manager.transactions then manager.transactions
        else manager.transactions.insert id { id } }
  (id, manager.append { txnId := id, type := .begin })

/-- `get`. -/
def get (id : TxnId) (manager : TransactionManager) : Except Fault Transaction :=
  match manager.transactions.lookup id with
  | some txn => .ok txn
  | none => .error (.runtimeError (str "Transaction not found"))

/-- The two checks every `commit` and `rollback` starts with. -/
def getActive (id : TxnId) (manager : TransactionManager) : Except Fault Transaction := do
  let txn ← manager.get id
  if txn.active then .ok txn else .error (.runtimeError (str "Transaction is not active"))

/-- The data record of one write. -/
def dataRecord (order : RowOrder) (id : TxnId) (wr : WriteRecord) : LogRecord where
  txnId := id
  table := wr.table
  key := wr.key
  oldValue := serializeRow order wr.oldRow
  newValue := serializeRow order wr.newRow
  type :=
    match wr.type with
    | .insert => .insert
    | .update => .update
    | .delete => .delete

/-- Append the write log and the closing record, then flush. -/
def logOutcome (order : RowOrder) (txn : Transaction) (id : TxnId) (outcome : RecordType)
    (manager : TransactionManager) : TransactionManager :=
  let manager := txn.writeLog.foldl (fun m wr => m.append (dataRecord order id wr)) manager
  let manager := manager.append { txnId := id, type := outcome }
  { manager with wal := manager.wal.map Wal.flush }

/-- What `commit` and `rollback` both end with: the log records, then the transaction's new status,
then the release of its locks. -/
def close (order : RowOrder) (txn closed : Transaction) (id : TxnId) (outcome : RecordType)
    (manager : TransactionManager) : TransactionManager :=
  let manager := manager.logOutcome order txn id outcome
  { manager with
    transactions := manager.transactions.insert id closed
    lockManager := LockManager.releaseAll id manager.lockManager }

/-- `commit`. -/
def commit (order : RowOrder) (id : TxnId) (manager : TransactionManager) :
    Except Fault TransactionManager := do
  let txn ← manager.getActive id
  .ok (manager.close order txn txn.commit id .commit)

/-- `for (auto& row : table) { ... if (ki != row.end() && ki->second == it->key) { row = it->oldRow;
break; } }`. -/
def restoreFirst (key : Str) (oldRow : Row) : List Row → List Row
  | [] => []
  | row :: rest => if hasKey key row then oldRow :: rest else row :: restoreFirst key oldRow rest

/-- One iteration of the undo loop of `rollback`. -/
def undoWrite (wr : WriteRecord) (storage : TableStorage) : TableStorage :=
  let table := storage.rows wr.table
  match wr.type with
  | .insert => storage.setRows wr.table (removeKey wr.key table)
  | .update | .delete => storage.setRows wr.table (restoreFirst wr.key wr.oldRow table)

/-- `rollback`. -/
def rollback (order : RowOrder) (id : TxnId) (storage : TableStorage)
    (manager : TransactionManager) : Except Fault (TableStorage × TransactionManager) := do
  let txn ← manager.getActive id
  .ok (txn.writeLog.foldr undoWrite storage, manager.close order txn txn.abort id .abort)

end TransactionManager

end MyDb
