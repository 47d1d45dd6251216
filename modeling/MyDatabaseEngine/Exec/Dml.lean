/-
**INSERT, UPDATE, DELETE and CREATE TABLE** (`src/executor.cpp`).

Each function takes the storage and the `Transaction*` it was called with, and returns both as the
call leaves them. A thrown exception leaves them as they were before the call: every `throw` comes
before the first write.

The loops over a table are recursions on its rows, with the transaction handed from row to row,
since each change is logged as it is made. A null pointer and a transaction that is no longer active
log nothing. The key of a write record is the row's `id`, or the empty text; an UPDATE's is that of
the row as it is afterwards. The key, the old and the new row are all that a rollback and a recovery
will have to go by.
-/

import MyDatabaseEngine.Exec.Eval
import MyDatabaseEngine.Txn.Transaction

namespace MyDb

/-- `row.count("id") ? row.at("id") : ""`. -/
def recordKey (row : Row) : Str := row.id?.getD []

/-- The exception of a statement on a table that is not there. -/
def tableNotFound (table : Str) : Fault := .runtimeError (str "Table not found: " ++ table)

/-! ### INSERT -/

/-- The loop `row[stmt.columns[i]] = extractLiteral(stmt.values[i])`. The index runs over the
columns only: with fewer values it reads past the end of `values`. -/
def buildRow : List Str → List Expr → Row → Except Fault Row
  | [], _, row => .ok row
  | _ :: _, [], _ => .error .undefinedBehaviour
  | column :: columns, value :: values, row =>
    buildRow columns values (row.insert column (extractLiteral value))

def insertRecord (table : Str) (row : Row) : WriteRecord :=
  { type := .insert, table, key := recordKey row, newRow := row }

def executeInsert (stmt : InsertStatement) (storage : TableStorage) (txn : Option Transaction) :
    Except Fault (TableStorage × Option Transaction) :=
  match storage.lookup stmt.table with
  | none => .error (tableNotFound stmt.table)
  | some rows => do
    let row ← buildRow stmt.columns stmt.values ∅
    .ok (storage.setRows stmt.table (rows ++ [row]), logIfActive txn (insertRecord stmt.table row))

/-! ### UPDATE -/

/-- The loop over the assignments: each right-hand side is resolved on the row as the earlier
assignments left it. -/
def applyAssignments (assignments : List (Str × Expr)) (row : Row) : Row :=
  assignments.foldl (fun row assignment =>
    row.insert assignment.1 (resolveExpr assignment.2 row)) row

def updateRecord (table : Str) (oldRow newRow : Row) : WriteRecord :=
  { type := .update, table, key := recordKey newRow, oldRow, newRow }

/-- The loop over the table. -/
def updateRows (stmt : UpdateStatement) :
    List Row → Option Transaction → List Row × Option Transaction
  | [], txn => ([], txn)
  | row :: rest, txn =>
    if matchesWhere stmt.where? row then
      let newRow := applyAssignments stmt.assignments row
      let (rest', txn') :=
        updateRows stmt rest (logIfActive txn (updateRecord stmt.table row newRow))
      (newRow :: rest', txn')
    else
      let (rest', txn') := updateRows stmt rest txn
      (row :: rest', txn')

def executeUpdate (stmt : UpdateStatement) (storage : TableStorage) (txn : Option Transaction) :
    Except Fault (TableStorage × Option Transaction) :=
  match storage.lookup stmt.table with
  | none => .error (tableNotFound stmt.table)
  | some rows =>
    let (rows', txn') := updateRows stmt rows txn
    .ok (storage.setRows stmt.table rows', txn')

/-! ### DELETE -/

def deleteRecord (table : Str) (oldRow : Row) : WriteRecord :=
  { type := .delete, table, key := recordKey oldRow, oldRow }

/-- `std::remove_if` with the logging predicate, which is called once for each row, in order. -/
def deleteRows (stmt : DeleteStatement) :
    List Row → Option Transaction → List Row × Option Transaction
  | [], txn => ([], txn)
  | row :: rest, txn =>
    if matchesWhere stmt.where? row then
      deleteRows stmt rest (logIfActive txn (deleteRecord stmt.table row))
    else
      let (rest', txn') := deleteRows stmt rest txn
      (row :: rest', txn')

def executeDelete (stmt : DeleteStatement) (storage : TableStorage) (txn : Option Transaction) :
    Except Fault (TableStorage × Option Transaction) :=
  match storage.lookup stmt.table with
  | none => .error (tableNotFound stmt.table)
  | some rows =>
    let (rows', txn') := deleteRows stmt rows txn
    .ok (storage.setRows stmt.table rows', txn')

/-! ### CREATE TABLE -/

def executeCreateTable (stmt : CreateTableStatement) (storage : TableStorage) :
    Except Fault TableStorage :=
  match storage.lookup stmt.table with
  | some _ => .error (.runtimeError (str "Table already exists: " ++ stmt.table))
  | none => .ok (storage.setRows stmt.table [])

/-- **A new table is empty, and the others stay.** -/
theorem executeCreateTable_frame {stmt : CreateTableStatement} {storage storage' : TableStorage}
    (created : executeCreateTable stmt storage = .ok storage') :
    (∀ table, storage'.rows table = storage.rows table) ∧
      ∀ table, (storage'.lookup table).isSome = true ↔
        table = stmt.table ∨ (storage.lookup table).isSome = true := by
  unfold executeCreateTable at created
  cases found : storage.lookup stmt.table with
  | some rows =>
    rw [found] at created
    cases created
  | none =>
    rw [found] at created
    obtain rfl := Except.ok.inj created
    refine ⟨fun table => ?_, fun table => ?_⟩
    · rw [TableStorage.rows_setRows]
      split
      · rename_i same
        rw [same, TableStorage.rows, found]
        rfl
      · rfl
    · unfold TableStorage.setRows
      by_cases same : table = stmt.table
      · rw [same, Finmap.lookup_insert]
        simp
      · rw [Finmap.lookup_insert_of_ne _ same]
        simp [same]

/-! ### Any of the three writes -/

/-- A statement the executor runs under a transaction. -/
inductive DmlStatement
  | insert (stmt : InsertStatement)
  | update (stmt : UpdateStatement)
  | delete (stmt : DeleteStatement)
  deriving DecidableEq, Repr

def executeDml (stmt : DmlStatement) (storage : TableStorage) (txn : Option Transaction) :
    Except Fault (TableStorage × Option Transaction) :=
  match stmt with
  | .insert stmt => executeInsert stmt storage txn
  | .update stmt => executeUpdate stmt storage txn
  | .delete stmt => executeDelete stmt storage txn

end MyDb
