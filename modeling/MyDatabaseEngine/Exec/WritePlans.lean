/-
**The plan of a DELETE.**

The optimizer has a plan for a DELETE and an UPDATE, a filtered scan (`execute_scanWhere`), but the
executor runs neither through it: it goes over the table in place. `delete_plan_agrees`: both select
the same rows, and the plan returns the ones the loop takes out and logs, in the order of the table.
The rows that stay are the others, in their order; other tables are untouched; and the write log
grows by one Delete record for each removed row. The condition is that the table is there and the
transaction active: without the first both throw, without the second nothing is logged.
-/

import MyDatabaseEngine.Exec.Select
import MyDatabaseEngine.Txn.History

namespace MyDb

/-- A statement run through `toLogical`, `toPhysical` and `execute`, without a snapshot. -/
def runPlan (stdSort : StdSort Row) (storage : TableStorage) (stmt : Statement) :
    Except Fault (List Row) := do
  let logical ← Optimizer.toLogical stmt
  Executor.execute stdSort storage none (Optimizer.toPhysical logical)

section WritePlans

variable {storage : TableStorage} {rows : List Row}

/-- A filtered scan returns the rows WHERE selects. -/
theorem execute_scanWhere (stdSort : StdSort Row) {table : Str} (where? : Option Expr)
    (found : storage.lookup table = some rows) :
    Executor.execute stdSort storage none
      (Optimizer.toPhysical (Optimizer.scanWhere table where?)) =
      .ok (rows.filter (matchesWhere where?)) := by
  have tables : (Optimizer.toPhysical (Optimizer.scanWhere table where?)).tables = [table] := by
    unfold Optimizer.scanWhere
    cases where? <;> rfl
  rw [Operator.execute_denotes stdSort, denote_scanWhere, TableStorage.rows_of_lookup found]
  intro scanned member
  rw [tables, List.mem_singleton] at member
  rw [member, found]
  rfl

/-- What a DELETE from a table that is there does. -/
theorem executeDelete_eq {stmt : DeleteStatement} {txn : Transaction}
    (found : storage.lookup stmt.table = some rows) (active : txn.active = true) :
    executeDelete stmt storage (some txn) =
      .ok (storage.setRows stmt.table (rows.filter fun row => !matchesWhere stmt.where? row),
        some (txn.extend (deleteLog stmt rows))) := by
  unfold executeDelete
  simp only [found, deleteRows_eq stmt rows txn active]

/-- **The plan of a DELETE returns the rows the DELETE removes.** It is the same split of the table,
in the order of the table, into removed and remaining rows; other tables stay; and the transaction
logs one Delete record for each removed row, in order, with that row in it. -/
theorem delete_plan_agrees (stdSort : StdSort Row) {stmt : DeleteStatement} {txn : Transaction}
    (found : storage.lookup stmt.table = some rows) (active : txn.active = true) :
    ∃ removed remaining storage' txn' log,
      runPlan stdSort storage (.delete stmt) = .ok removed ∧
      executeDelete stmt storage (some txn) = .ok (storage', some txn') ∧
      storage'.lookup stmt.table = some remaining ∧
      removed = rows.filter (matchesWhere stmt.where?) ∧
      remaining = rows.filter (fun row => !matchesWhere stmt.where? row) ∧
      (∀ table, table ≠ stmt.table → storage'.lookup table = storage.lookup table) ∧
      txn' = { txn with writeLog := txn.writeLog ++ log } ∧
      log.map WriteRecord.oldRow = removed ∧
      ∀ record ∈ log, record.type = .delete ∧ record.table = stmt.table := by
  refine ⟨_, _, _, _, deleteLog stmt rows, execute_scanWhere stdSort stmt.where? found,
    executeDelete_eq found active, Finmap.lookup_insert _, rfl, rfl,
    fun table different => Finmap.lookup_insert_of_ne _ different, rfl, ?_, fun record member => ?_⟩
  · rw [deleteLog, List.map_map]
    exact List.map_id _
  · obtain ⟨row, _, rfl⟩ := List.mem_map.mp member
    exact ⟨rfl, rfl⟩

/-- `DELETE FROM users WHERE id = 1`. -/
def deleteFirst : DeleteStatement where
  table := str "users"
  where? := some (.binary (str "=") (.columnRef [] (str "id")) (.literal .integer (str "1")))

theorem delete_plan_agrees_users :
    ∃ removed remaining storage' txn' log,
      runPlan default (usersStorage [personRow "1" "30", personRow "2" "20"])
          (.delete deleteFirst) = .ok removed ∧
      executeDelete deleteFirst (usersStorage [personRow "1" "30", personRow "2" "20"])
        (some { id := 1 }) = .ok (storage', some txn') ∧
      storage'.lookup (str "users") = some remaining ∧
      removed = [personRow "1" "30", personRow "2" "20"].filter (matchesWhere deleteFirst.where?) ∧
      remaining = [personRow "1" "30", personRow "2" "20"].filter
        (fun row => !matchesWhere deleteFirst.where? row) ∧
      (∀ table, table ≠ str "users" → storage'.lookup table =
        (usersStorage [personRow "1" "30", personRow "2" "20"]).lookup table) ∧
      txn' = { ({ id := 1 } : Transaction) with writeLog := [] ++ log } ∧
      log.map WriteRecord.oldRow = removed ∧
      ∀ record ∈ log, record.type = .delete ∧ record.table = str "users" :=
  @delete_plan_agrees _ _ default deleteFirst _ (by decide) (by decide)

end WritePlans

end MyDb
