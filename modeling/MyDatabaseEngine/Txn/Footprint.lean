/-
**Which tables a request reads and writes.**

A DML statement reads and writes its own table (`executeDml_eq`), a query reads the tables its plan
scans (`execute_congr`), and `rollback` reads and writes the tables of the write log
(`undoWrites_congr`, `undoWrites_frame`). What is in any other table makes no difference to them.

These are the facts about the code that locking a table relies on. `DmlStatement.onTable` is a
statement as a function of its table's rows alone, or of the table's absence; the throw for a
missing table comes from there as well. Two storages that agree on a request's tables give it the
same answer, and afterwards agree on them again.
-/

import MyDatabaseEngine.Exec.Denotation
import MyDatabaseEngine.Txn.Interleaving

namespace MyDb

open TransactionManager (undoWrite)

/-! ### Statements -/

section Statements

/-- The table a statement is on. -/
def DmlStatement.table : DmlStatement → Str
  | .insert stmt => stmt.table
  | .update stmt => stmt.table
  | .delete stmt => stmt.table

/-- **What a statement makes of its table's rows, and what it logs.** -/
def DmlStatement.onRows (stmt : DmlStatement) (rows : List Row) :
    Except Fault (List Row × List WriteRecord) :=
  match stmt with
  | .insert stmt => do
    let row ← buildRow stmt.columns stmt.values ∅
    .ok (rows ++ [row], [insertRecord stmt.table row])
  | .update stmt => .ok (rows.map (updatedRow stmt), updateLog stmt rows)
  | .delete stmt =>
    .ok (rows.filter fun row => !matchesWhere stmt.where? row, deleteLog stmt rows)

/-- The same for a table that may not be there. -/
def DmlStatement.onTable (stmt : DmlStatement) (rows? : Option (List Row)) :
    Except Fault (List Row × List WriteRecord) :=
  match rows? with
  | none => .error (tableNotFound stmt.table)
  | some rows => stmt.onRows rows

/-- **A statement works on its own table alone.** -/
theorem executeDml_eq (stmt : DmlStatement) (storage : TableStorage) {txn : Transaction}
    (active : txn.active = true) :
    executeDml stmt storage (some txn) =
      (stmt.onTable (storage.lookup stmt.table)).map fun done =>
        (storage.setRows stmt.table done.1, some (txn.extend done.2)) := by
  cases stmt with
  | insert stmt =>
    dsimp only [executeDml, executeInsert, DmlStatement.table]
    cases storage.lookup stmt.table with
    | none => rfl
    | some rows =>
      dsimp only [DmlStatement.onTable, DmlStatement.onRows]
      cases buildRow stmt.columns stmt.values ∅ with
      | error fault => rfl
      | ok row =>
        dsimp only [bind, Except.bind, Except.map]
        rw [logIfActive_some active]
        rfl
  | update stmt =>
    dsimp only [executeDml, executeUpdate, DmlStatement.table]
    cases storage.lookup stmt.table with
    | none => rfl
    | some rows =>
      dsimp only [DmlStatement.onTable, DmlStatement.onRows]
      rw [updateRows_eq stmt rows txn active]
      rfl
  | delete stmt =>
    dsimp only [executeDml, executeDelete, DmlStatement.table]
    cases storage.lookup stmt.table with
    | none => rfl
    | some rows =>
      dsimp only [DmlStatement.onTable, DmlStatement.onRows]
      rw [deleteRows_eq stmt rows txn active]
      rfl

/-- A statement logs writes on its own table. -/
theorem DmlStatement.table_of_logged {stmt : DmlStatement} {rows? : Option (List Row)}
    {rows' : List Row} {log : List WriteRecord} (done : stmt.onTable rows? = .ok (rows', log)) :
    ∀ wr ∈ log, wr.table = stmt.table := by
  intro wr member
  cases rows? with
  | none => cases done
  | some rows =>
    cases stmt with
    | insert stmt =>
      dsimp only [DmlStatement.onTable, DmlStatement.onRows] at done
      cases built : buildRow stmt.columns stmt.values ∅ with
      | error fault =>
        rw [built] at done
        cases done
      | ok row =>
        rw [built] at done
        cases done
        rw [List.mem_singleton.mp member]
        rfl
    | update stmt =>
      cases done
      obtain ⟨row, _, rfl⟩ := List.mem_map.mp member
      rfl
    | delete stmt =>
      cases done
      obtain ⟨row, _, rfl⟩ := List.mem_map.mp member
      rfl

end Statements

/-! ### Queries -/

section Queries

variable {storage storage' : TableStorage}

/-- The operator of a plan is made from the tables it scans. -/
theorem build_congr (stdSort : StdSort Row) (snapshot : Option MvccSnapshot) {plan : PhysicalPlan}
    (agree : ∀ table ∈ plan.tables, storage.lookup table = storage'.lookup table) :
    Executor.build stdSort storage snapshot plan =
      Executor.build stdSort storage' snapshot plan := by
  induction plan with
  | seqScan tableName =>
    rw [Executor.build, Executor.build, agree tableName (List.mem_singleton_self _)]
  | filter _ _ ih | projection _ _ ih | sort _ _ ih | limit _ _ ih =>
    rw [Executor.build, Executor.build, ih agree]
  | hashJoin _ _ _ _ ihBuild ihProbe =>
    rw [Executor.build, Executor.build, ihBuild fun table member =>
      agree table (List.mem_append_left _ member), ihProbe fun table member =>
      agree table (List.mem_append_right _ member)]

/-- **A query depends on the tables its plan scans.** -/
theorem execute_congr (stdSort : StdSort Row) (snapshot : Option MvccSnapshot) {plan : PhysicalPlan}
    (agree : ∀ table ∈ plan.tables, storage.lookup table = storage'.lookup table) :
    Executor.execute stdSort storage snapshot plan =
      Executor.execute stdSort storage' snapshot plan := by
  unfold Executor.execute
  rw [build_congr stdSort snapshot agree]

end Queries

/-! ### Rollback -/

section Rollback

variable {log : List WriteRecord}

theorem lookup_setRows_self (storage : TableStorage) (table : Str) (rows : List Row) :
    (storage.setRows table rows).lookup table = some rows := Finmap.lookup_insert _

theorem lookup_setRows_of_ne (storage : TableStorage) {table other : Str} (rows : List Row)
    (different : other ≠ table) :
    (storage.setRows table rows).lookup other = storage.lookup other :=
  Finmap.lookup_insert_of_ne _ different

/-- **Rollback leaves the tables alone that the log does not name.** -/
theorem undoWrites_frame (storage : TableStorage) {table : Str}
    (unnamed : ∀ wr ∈ log, wr.table ≠ table) :
    (log.foldr undoWrite storage).lookup table = storage.lookup table := by
  induction log with
  | nil => rfl
  | cons wr rest ih =>
    rw [List.foldr_cons, undoWrite_eq,
      lookup_setRows_of_ne _ _ (Ne.symm (unnamed wr List.mem_cons_self))]
    exact ih fun w member => unnamed w (List.mem_cons_of_mem _ member)

theorem undoWrite_congr {storage storage' : TableStorage} {wr : WriteRecord} {tables : Set Str}
    (named : wr.table ∈ tables)
    (agree : ∀ table ∈ tables, storage.lookup table = storage'.lookup table) :
    ∀ table ∈ tables, (undoWrite wr storage).lookup table =
      (undoWrite wr storage').lookup table := by
  intro table member
  have same : storage.rows wr.table = storage'.rows wr.table := by
    unfold TableStorage.rows
    rw [agree wr.table named]
  rw [undoWrite_eq, undoWrite_eq, same]
  by_cases own : table = wr.table
  · rw [own, lookup_setRows_self, lookup_setRows_self]
  · rw [lookup_setRows_of_ne _ _ own, lookup_setRows_of_ne _ _ own]
    exact agree table member

/-- **Rollback depends on the tables the log names.** -/
theorem undoWrites_congr {storage storage' : TableStorage} {tables : Set Str}
    (named : ∀ wr ∈ log, wr.table ∈ tables)
    (agree : ∀ table ∈ tables, storage.lookup table = storage'.lookup table) :
    ∀ table ∈ tables,
      (log.foldr undoWrite storage).lookup table = (log.foldr undoWrite storage').lookup table := by
  induction log with
  | nil => exact agree
  | cons wr rest ih =>
    exact undoWrite_congr (named wr List.mem_cons_self)
      (ih fun w member => named w (List.mem_cons_of_mem _ member))

end Rollback

end MyDb
