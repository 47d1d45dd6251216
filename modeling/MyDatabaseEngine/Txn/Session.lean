/-
**Runs: one manager, one storage, transactions one after the other.**

A `Session` is the manager together with the storage its transactions work on. `Statements P id s
stmts s'` runs DML statements through the executor under transaction `id`, and `SerialRun` whole
transactions, each begun, run and ended by commit or by rollback. Both are restricted to runs in
which no UPDATE assigns `id` and the storage satisfies `P` after every step; `P` is `WellKeyed`
(every row has an `id`, ids are unique within a table) and, where rows are written to the log, also
`Faithful`.

A run also yields its history: for each transaction, whether it committed, and its write log.
-/

import MyDatabaseEngine.Exec.Dml
import MyDatabaseEngine.Txn.Manager
import MyDatabaseEngine.Lib.KeyedList

namespace MyDb

open KeyedList

namespace TableStorage

/-- Every row has an `id`, and ids are unique within a table. -/
def WellKeyed (storage : TableStorage) : Prop :=
  ∀ table, Keyed Row.id? (storage.rows table)

/-- Every row's text is faithful. -/
def Faithful (storage : TableStorage) : Prop :=
  ∀ table, ∀ row ∈ storage.rows table, FaithfulText row

/-- No table holds a row. -/
def Empty (storage : TableStorage) : Prop := ∀ table, storage.rows table = []

/-- The row of a table with an id. -/
def rowAt (storage : TableStorage) (table key : Str) : Option Row :=
  lookup Row.id? (storage.rows table) key

/-- The same rows in every table, as multisets. -/
def SameRows (storage other : TableStorage) : Prop :=
  ∀ table, (storage.rows table).Perm (other.rows table)

/-- A property of all tables is one of the tables the storage has, when empty tables satisfy it. -/
theorem forall_rows_iff {P : List Row → Prop} (empty : P []) (storage : TableStorage) :
    (∀ table, P (storage.rows table)) ↔ ∀ e ∈ storage.entries, P e.2 := by
  constructor
  · intro all e member
    have found : storage.lookup e.1 = some e.2 := Finmap.mem_lookup_iff.mpr member
    rw [← rows_of_lookup found]
    exact all e.1
  · intro all table
    unfold rows
    cases found : storage.lookup table with
    | none => exact empty
    | some tableRows => exact all ⟨table, tableRows⟩ (Finmap.mem_lookup_iff.mp found)

instance (storage : TableStorage) : Decidable storage.WellKeyed :=
  decidable_of_iff (∀ e ∈ storage.entries, Keyed Row.id? e.2)
    (forall_rows_iff Keyed.nil storage).symm

instance (storage : TableStorage) : Decidable storage.Faithful :=
  decidable_of_iff (∀ e ∈ storage.entries, ∀ row ∈ e.2, FaithfulText row)
    (forall_rows_iff (P := fun rows => ∀ row ∈ rows, FaithfulText row) (by simp) storage).symm

instance (storage : TableStorage) : Decidable storage.Empty :=
  decidable_of_iff (∀ e ∈ storage.entries, e.2 = [])
    (forall_rows_iff (P := fun rows => rows = []) rfl storage).symm

/-- **Well-keyed storages hold the same rows when every id finds the same row.** -/
theorem sameRows_iff {storage other : TableStorage} (keyed : storage.WellKeyed)
    (keyed' : other.WellKeyed) :
    storage.SameRows other ↔ ∀ table key, storage.rowAt table key = other.rowAt table key :=
  forall_congr' fun table => (keyed table).perm_iff_lookup (keyed' table)

theorem wellKeyed_of_empty {storage : TableStorage} (empty : storage.Empty) :
    storage.WellKeyed := fun table => by
  rw [empty table]
  exact Keyed.nil

theorem rowAt_of_empty {storage : TableStorage} (empty : storage.Empty) (table key : Str) :
    storage.rowAt table key = none := by
  unfold rowAt
  rw [empty table, lookup_nil]

theorem wellKeyed_setRows {storage : TableStorage} (keyed : storage.WellKeyed) {table : Str}
    {rows : List Row} (keyedRows : Keyed Row.id? rows) :
    (storage.setRows table rows).WellKeyed := by
  intro other
  rw [rows_setRows]
  split
  · exact keyedRows
  · exact keyed other

theorem rowAt_setRows (storage : TableStorage) (table other key : Str) (rows : List Row) :
    (storage.setRows table rows).rowAt other key =
      if other = table then lookup Row.id? rows key else storage.rowAt other key := by
  unfold rowAt
  rw [rows_setRows]
  split <;> rfl

end TableStorage

/-- An UPDATE that assigns `id`. -/
def DmlStatement.assignsId : DmlStatement → Bool
  | .update stmt => idColumn ∈ stmt.assignments.map Prod.fst
  | _ => false

structure Session where
  manager : TransactionManager
  storage : TableStorage

namespace Session

/-- `manager.begin()`. -/
def begin (s : Session) : TxnId × Session :=
  let (id, manager) := s.manager.begin
  (id, { s with manager })

/-- A statement run through the executor with `&manager.get(id)`; a statement that throws leaves
everything as it was. -/
def exec (id : TxnId) (stmt : DmlStatement) (s : Session) : Except Fault Session := do
  let txn ← s.manager.get id
  match executeDml stmt s.storage (some txn) with
  | .ok (storage, txn') =>
    .ok { storage, manager :=
            { s.manager with transactions := s.manager.transactions.insert id (txn'.getD txn) } }
  | .error (.runtimeError _) => .ok s
  | .error fault => .error fault

/-- `manager.commit(id)`. -/
def commit (order : RowOrder) (id : TxnId) (s : Session) : Except Fault Session := do
  let manager ← s.manager.commit order id
  .ok { s with manager }

/-- `manager.rollback(id, storage)`. -/
def rollback (order : RowOrder) (id : TxnId) (s : Session) : Except Fault Session := do
  let (storage, manager) ← s.manager.rollback order id s.storage
  .ok { manager, storage }

end Session

/-- **Statements under one transaction**, none of which assigns `id`, with `P` after each. -/
inductive Statements (P : TableStorage → Prop) (id : TxnId) :
    Session → List DmlStatement → Session → Prop
  | nil (s : Session) : Statements P id s [] s
  | cons {s s' s'' : Session} {stmt : DmlStatement} {rest : List DmlStatement} :
      stmt.assignsId = false → s.exec id stmt = .ok s' → P s'.storage →
      Statements P id s' rest s'' → Statements P id s (stmt :: rest) s''

/-- One transaction of a serial run: its statements, and whether it commits. -/
structure TxnScript where
  statements : List DmlStatement
  commits : Bool

/-- What a transaction did: whether it committed, and its write log. -/
structure TxnHistory where
  committed : Bool
  writes : List WriteRecord

/-- **Transactions one after the other**, with the history of the run. -/
inductive SerialRun (order : RowOrder) (P : TableStorage → Prop) :
    Session → List TxnScript → List TxnHistory → Session → Prop
  | done (s : Session) : SerialRun order P s [] [] s
  | commit {s s₁ s₂ s₃ s₄ : Session} {id : TxnId} {txn : Transaction} {stmts : List DmlStatement}
      {rest : List TxnScript} {history : List TxnHistory} :
      s.begin = (id, s₁) → Statements P id s₁ stmts s₂ → s₂.manager.get id = .ok txn →
      s₂.commit order id = .ok s₃ → P s₃.storage → SerialRun order P s₃ rest history s₄ →
      SerialRun order P s (⟨stmts, true⟩ :: rest) (⟨true, txn.writeLog⟩ :: history) s₄
  | rollback {s s₁ s₂ s₃ s₄ : Session} {id : TxnId} {txn : Transaction}
      {stmts : List DmlStatement} {rest : List TxnScript} {history : List TxnHistory} :
      s.begin = (id, s₁) → Statements P id s₁ stmts s₂ → s₂.manager.get id = .ok txn →
      s₂.rollback order id = .ok s₃ → P s₃.storage → SerialRun order P s₃ rest history s₄ →
      SerialRun order P s (⟨stmts, false⟩ :: rest) (⟨false, txn.writeLog⟩ :: history) s₄

/-- The storage condition of a run whose rows are written to the log. -/
def LoggableStorage (storage : TableStorage) : Prop := storage.WellKeyed ∧ storage.Faithful

instance (storage : TableStorage) : Decidable (LoggableStorage storage) :=
  inferInstanceAs (Decidable (_ ∧ _))

/-! ### Sample statements, on a table `users` -/

/-- A row with an `id` and nothing else. -/
def idRow (key : String) : Row := (∅ : Row).insert idColumn (str key)

/-- `DELETE FROM users`. -/
def deleteUsers : DmlStatement := .delete { table := str "users", where? := none }

/-- `INSERT INTO users (id) VALUES (key)`. -/
def insertUser (key : String) : DmlStatement :=
  .insert { table := str "users", columns := [idColumn], values := [.literal .integer (str key)] }

/-- A new manager with a log on a new file, and an empty table `users`. -/
def freshSession : Session where
  manager := { wal := some (Wal.openFile []) }
  storage := (∅ : TableStorage).insert (str "users") []

end MyDb
