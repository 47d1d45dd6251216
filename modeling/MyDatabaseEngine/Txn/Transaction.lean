/-
**Transactions and their write logs** (`include/transaction.h`).

A write record keeps what was done, to which row of which table, and the row before and after; the
row is named by its `id`, as a text. `commit` and `abort` set the status without a look at it, as
`logWrite` appends to the log: it is the manager that refuses to end a transaction twice, and the
executor that asks whether a transaction is there and active before it logs (`logIfActive`). The log
of a transaction that has ended is kept.
-/

import MyDatabaseEngine.Basic

namespace MyDb

/-- `TxnId = uint64_t`. The ids a manager gives start at 1 and each one stays a key of its map of
transactions, so no run gives as many as would make the counter wrap. -/
abbrev TxnId := Nat

/-- `WriteRecord::Type`. -/
inductive WriteType
  | insert
  | update
  | delete
  deriving DecidableEq, Repr

structure WriteRecord where
  type : WriteType
  table : Str
  key : Str
  oldRow : Row := ∅
  newRow : Row := ∅
  deriving DecidableEq

inductive TxnStatus
  | active
  | committed
  | aborted
  deriving DecidableEq, Repr

structure Transaction where
  id : TxnId
  status : TxnStatus := .active
  writeLog : List WriteRecord := []
  deriving DecidableEq

namespace Transaction

def active (txn : Transaction) : Bool := txn.status = .active

def logWrite (txn : Transaction) (record : WriteRecord) : Transaction :=
  { txn with writeLog := txn.writeLog ++ [record] }

def commit (txn : Transaction) : Transaction := { txn with status := .committed }

def abort (txn : Transaction) : Transaction := { txn with status := .aborted }

end Transaction

/-- `if (txn && txn->active()) txn->logWrite(record)`, on a `Transaction*` that may be null. -/
def logIfActive (txn : Option Transaction) (record : WriteRecord) : Option Transaction :=
  txn.map fun t => if t.active then t.logWrite record else t

end MyDb
