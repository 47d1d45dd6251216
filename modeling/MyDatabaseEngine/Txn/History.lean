/-
**The write log is the history of every row.**

`exec_effect`: a statement run under an active transaction appends to its write log exactly what it
did. For each table and id, the appended records with that table and key are a history
(`VersionHistory.Runs`) from the row the storage held before to the row it holds after. Everything
the undo and the redo loops do to a storage is then a computation on these histories, one table and
id at a time: `rowAt_undoWrites` for `rollback`.
-/

import MyDatabaseEngine.Txn.Session
import MyDatabaseEngine.Lib.VersionHistory

namespace MyDb

open KeyedList VersionHistory

/-! ### Write records as changes -/

namespace WriteRecord

/-- The record as a change of one row. -/
def change (wr : WriteRecord) : Change Row :=
  match wr.type with
  | .insert => .insert wr.newRow
  | .update => .update wr.oldRow wr.newRow
  | .delete => .delete wr.oldRow

/-- The images a record uses are rows with its key. -/
structure HasKey (wr : WriteRecord) : Prop where
  newRow : wr.type ≠ .delete → wr.newRow.id? = some wr.key
  oldRow : wr.type ≠ .insert → wr.oldRow.id? = some wr.key

/-- Both images have a faithful text. -/
def FaithfulImages (wr : WriteRecord) : Prop := FaithfulText wr.newRow ∧ FaithfulText wr.oldRow

theorem isInsert_change (wr : WriteRecord) : wr.change.isInsert = decide (wr.type = .insert) := by
  unfold change
  split <;> simp_all [Change.isInsert]

theorem isDelete_change (wr : WriteRecord) : wr.change.isDelete = decide (wr.type = .delete) := by
  unfold change
  split <;> simp_all [Change.isDelete]

theorem old?_change {wr : WriteRecord} (notInsert : wr.type ≠ .insert) :
    wr.change.old? = some wr.oldRow := by
  unfold change
  split
  · exact absurd ‹_› notInsert
  · rfl
  · rfl

end WriteRecord

/-- The records of a log on one table and key. -/
def writesOn (table key : Str) (log : List WriteRecord) : List WriteRecord :=
  log.filter fun wr => wr.table = table ∧ wr.key = key

/-- The history of one table and key. -/
def changesOn (table key : Str) (log : List WriteRecord) : List (Change Row) :=
  (writesOn table key log).map WriteRecord.change

@[simp]
theorem changesOn_nil (table key : Str) : changesOn table key [] = [] := rfl

theorem changesOn_append (table key : Str) (log log' : List WriteRecord) :
    changesOn table key (log ++ log') = changesOn table key log ++ changesOn table key log' := by
  simp [changesOn, writesOn]

theorem changesOn_cons (table key : Str) (wr : WriteRecord) (log : List WriteRecord) :
    changesOn table key (wr :: log) =
      if wr.table = table ∧ wr.key = key then wr.change :: changesOn table key log
      else changesOn table key log := by
  unfold changesOn writesOn
  by_cases on : wr.table = table ∧ wr.key = key
  · rw [List.filter_cons_of_pos (by simpa using on), if_pos on, List.map_cons]
  · rw [List.filter_cons_of_neg (by simpa using on), if_neg on]

theorem mem_writesOn {table key : Str} {log : List WriteRecord} {wr : WriteRecord} :
    wr ∈ writesOn table key log ↔ wr ∈ log ∧ wr.table = table ∧ wr.key = key := by
  simp [writesOn]

theorem exists_changesOn_iff {table key : Str} {log : List WriteRecord} {P : Change Row → Prop} :
    (∃ change ∈ changesOn table key log, P change) ↔
      ∃ wr ∈ writesOn table key log, P wr.change := by
  simp [changesOn]

theorem noInsert_changesOn_iff {table key : Str} {log : List WriteRecord} :
    (¬ ∃ change ∈ changesOn table key log, change.isInsert) ↔
      ∀ wr ∈ writesOn table key log, wr.type ≠ .insert := by
  rw [exists_changesOn_iff]
  simp [WriteRecord.isInsert_change]

/-! ### What each loop of the executor computes -/

section Loops

theorem recordKey_of_id {row : Row} {key : Str} (hasId : row.id? = some key) :
    recordKey row = key := by
  rw [recordKey, hasId, Option.getD_some]

/-- Assignments keep the columns that none of them is to. -/
theorem lookup_applyAssignments {assignments : List (Str × Expr)} {column : Str}
    (keeps : column ∉ assignments.map Prod.fst) (row : Row) :
    (applyAssignments assignments row).lookup column = row.lookup column := by
  unfold applyAssignments
  induction assignments generalizing row with
  | nil => rfl
  | cons assignment rest ih =>
    rw [List.map_cons, List.mem_cons, not_or] at keeps
    rw [List.foldl_cons, ih keeps.2]
    exact Finmap.lookup_insert_of_ne _ keeps.1

theorem id_applyAssignments {assignments : List (Str × Expr)}
    (keepsId : idColumn ∉ assignments.map Prod.fst) (row : Row) :
    (applyAssignments assignments row).id? = row.id? :=
  lookup_applyAssignments keepsId row

/-- What the UPDATE loop leaves in the table. -/
def updatedRow (stmt : UpdateStatement) (row : Row) : Row :=
  if matchesWhere stmt.where? row then applyAssignments stmt.assignments row else row

/-- What the UPDATE loop logs. -/
def updateLog (stmt : UpdateStatement) (rows : List Row) : List WriteRecord :=
  (rows.filter (matchesWhere stmt.where?)).map fun row =>
    updateRecord stmt.table row (applyAssignments stmt.assignments row)

/-- What the DELETE loop logs. -/
def deleteLog (stmt : DeleteStatement) (rows : List Row) : List WriteRecord :=
  (rows.filter (matchesWhere stmt.where?)).map (deleteRecord stmt.table)

theorem logIfActive_some {txn : Transaction} (active : txn.active = true) (record : WriteRecord) :
    logIfActive (some txn) record = some (txn.logWrite record) := by
  rw [logIfActive, Option.map_some, if_pos active]

/-- A transaction with more in its write log. -/
def Transaction.extend (txn : Transaction) (records : List WriteRecord) : Transaction :=
  { txn with writeLog := txn.writeLog ++ records }

theorem Transaction.extend_logWrite (txn : Transaction) (record : WriteRecord)
    (records : List WriteRecord) :
    (txn.logWrite record).extend records = txn.extend (record :: records) := by
  simp [Transaction.extend, Transaction.logWrite]

@[simp]
theorem Transaction.extend_nil (txn : Transaction) : txn.extend [] = txn := by
  simp [Transaction.extend]

theorem updateRows_eq (stmt : UpdateStatement) (rows : List Row) :
    ∀ txn : Transaction, txn.active = true → updateRows stmt rows (some txn) =
      (rows.map (updatedRow stmt), some (txn.extend (updateLog stmt rows))) := by
  induction rows with
  | nil => exact fun _ _ => by simp [updateRows, updateLog]
  | cons row rest ih =>
    intro txn active
    rw [updateRows, List.map_cons]
    by_cases hit : matchesWhere stmt.where? row = true
    · have log : updateLog stmt (row :: rest)
          = updateRecord stmt.table row (applyAssignments stmt.assignments row)
            :: updateLog stmt rest := by
        simp [updateLog, hit]
      rw [if_pos hit, log, ← Transaction.extend_logWrite, updatedRow, if_pos hit]
      dsimp only
      rw [logIfActive_some active, ih (txn.logWrite _) active]
    · have log : updateLog stmt (row :: rest) = updateLog stmt rest := by
        simp [updateLog, hit]
      rw [if_neg hit, ih txn active, log, updatedRow, if_neg hit]

theorem deleteRows_eq (stmt : DeleteStatement) (rows : List Row) :
    ∀ txn : Transaction, txn.active = true → deleteRows stmt rows (some txn) =
      (rows.filter (fun row => !matchesWhere stmt.where? row),
        some (txn.extend (deleteLog stmt rows))) := by
  induction rows with
  | nil => exact fun _ _ => by simp [deleteRows, deleteLog]
  | cons row rest ih =>
    intro txn active
    rw [deleteRows]
    by_cases hit : matchesWhere stmt.where? row = true
    · have log : deleteLog stmt (row :: rest)
          = deleteRecord stmt.table row :: deleteLog stmt rest := by
        simp [deleteLog, hit]
      rw [if_pos hit, logIfActive_some active, ih (txn.logWrite _) active, log,
        Transaction.extend_logWrite, List.filter_cons_of_neg (by simp [hit])]
    · have log : deleteLog stmt (row :: rest) = deleteLog stmt rest := by
        simp [deleteLog, hit]
      rw [if_neg hit, ih txn active, log, List.filter_cons_of_pos (by simp [hit])]

end Loops

/-! ### One statement -/

/-- **What a log did to a storage**: every row's history, and whose rows its images are. -/
structure Effect (before after : TableStorage) (log : List WriteRecord) : Prop where
  runs : ∀ table key,
    Runs (changesOn table key log) (before.rowAt table key) (after.rowAt table key)
  hasKey : ∀ wr ∈ log, wr.HasKey
  newRow : ∀ wr ∈ log, wr.newRow = ∅ ∨ wr.newRow ∈ after.rows wr.table
  oldRow : ∀ wr ∈ log, wr.oldRow = ∅ ∨ wr.oldRow ∈ before.rows wr.table

theorem Effect.refl (storage : TableStorage) : Effect storage storage [] :=
  ⟨fun _ _ => .nil _, by simp, by simp, by simp⟩

section Statements

/-- A log that records some of a table's rows, each under its own id, holds at most one record for
an id. -/
theorem changesOn_rows (record : Row → WriteRecord) {rows : List Row}
    (keyed : Keyed Row.id? rows) {table : Str} {p : Row → Bool}
    (onTable : ∀ row, (record row).table = table)
    (onKey : ∀ row key, row.id? = some key → (record row).key = key) (key : Str) :
    changesOn table key ((rows.filter p).map record) =
      (((lookup Row.id? rows key).filter p).map fun row => (record row).change).toList := by
  induction rows with
  | nil => rfl
  | cons row rest ih =>
    obtain ⟨⟨own, hasId, fresh⟩, keyedRest⟩ := Keyed.cons_iff.mp keyed
    have head : changesOn table key (((row :: rest).filter p).map record)
        = (if p row = true ∧ own = key then [(record row).change] else [])
          ++ changesOn table key ((rest.filter p).map record) := by
      by_cases hit : p row = true
      · rw [List.filter_cons_of_pos hit, List.map_cons, changesOn_cons, onTable,
          onKey row own hasId]
        by_cases same : own = key
        · simp [hit, same]
        · simp [same]
      · rw [List.filter_cons_of_neg hit]
        simp [hit]
    rw [head, ih keyedRest, lookup_cons, hasId]
    by_cases same : own = key
    · subst same
      rw [fresh]
      by_cases hit : p row = true
      · simp [hit, Option.filter_some_pos hit]
      · simp [hit, Option.filter_some_neg (show p row = false by simpa using hit)]
    · simp [same]

/-- A change of one table is an effect on the storage. -/
theorem effect_setRows {storage : TableStorage} {table : Str} {rows' : List Row}
    {log : List WriteRecord} (onTable : ∀ wr ∈ log, wr.table = table)
    (runs : ∀ key, Runs (changesOn table key log) (storage.rowAt table key)
      (lookup Row.id? rows' key))
    (hasKey : ∀ wr ∈ log, wr.HasKey)
    (newRow : ∀ wr ∈ log, wr.newRow = ∅ ∨ wr.newRow ∈ rows')
    (oldRow : ∀ wr ∈ log, wr.oldRow = ∅ ∨ wr.oldRow ∈ storage.rows table) :
    Effect storage (storage.setRows table rows') log := by
  refine ⟨fun other key => ?_, hasKey, fun wr member => ?_, fun wr member => ?_⟩
  · rw [TableStorage.rowAt_setRows]
    by_cases same : other = table
    · subst same
      rw [if_pos rfl]
      exact runs key
    · have none : changesOn other key log = [] := by
        unfold changesOn writesOn
        rw [List.map_eq_nil_iff, List.filter_eq_nil_iff]
        intro wr member on
        simp only [decide_eq_true_eq] at on
        exact same (on.1.symm.trans (onTable wr member))
      rw [if_neg same, none]
      exact .nil _
  · rw [onTable wr member, TableStorage.rows_setRows_self]
    exact newRow wr member
  · rw [onTable wr member]
    exact oldRow wr member

theorem effect_insert {storage : TableStorage} {table : Str} {row : Row}
    (keyed' : Keyed Row.id? (storage.rows table ++ [row])) :
    Effect storage (storage.setRows table (storage.rows table ++ [row]))
      [insertRecord table row] := by
  obtain ⟨own, hasId⟩ := Option.isSome_iff_exists.mp (keyed'.isSome row (by simp))
  have ownKey : (insertRecord table row).key = own := recordKey_of_id hasId
  refine effect_setRows (by simp [insertRecord]) (fun key => ?_) ?_ (by simp [insertRecord])
    (by simp [insertRecord])
  · rw [changesOn_cons, ownKey, lookup_concat _ hasId]
    by_cases same : own = key
    · subst same
      have fresh : storage.rowAt table own = none := fresh_of_keyed_concat keyed' hasId
      rw [if_pos ⟨rfl, rfl⟩, fresh, if_pos rfl]
      unfold TableStorage.rowAt at fresh
      rw [fresh]
      exact .cons (.nil _)
    · rw [if_neg fun both => same both.2, if_neg (Ne.symm same), Option.or_none]
      exact .nil _
  · intro wr member
    rw [List.mem_singleton] at member
    subst member
    exact ⟨fun _ => by rw [ownKey]; exact hasId, fun notInsert => absurd rfl notInsert⟩

theorem effect_update {storage : TableStorage} {stmt : UpdateStatement}
    (keepsId : idColumn ∉ stmt.assignments.map Prod.fst)
    (keyed : Keyed Row.id? (storage.rows stmt.table)) :
    Effect storage
      (storage.setRows stmt.table ((storage.rows stmt.table).map (updatedRow stmt)))
      (updateLog stmt (storage.rows stmt.table)) := by
  have sameId : ∀ row, (applyAssignments stmt.assignments row).id? = row.id? :=
    id_applyAssignments keepsId
  have sameIdUpdated : ∀ row, (updatedRow stmt row).id? = row.id? := fun row => by
    unfold updatedRow
    split
    · exact sameId row
    · rfl
  have logged : ∀ wr ∈ updateLog stmt (storage.rows stmt.table), ∃ row ∈ storage.rows stmt.table,
      matchesWhere stmt.where? row = true ∧
        wr = updateRecord stmt.table row (applyAssignments stmt.assignments row) := by
    intro wr member
    obtain ⟨row, inside, rfl⟩ := List.mem_map.mp member
    exact ⟨row, (List.mem_filter.mp inside).1, (List.mem_filter.mp inside).2, rfl⟩
  refine effect_setRows (fun wr member => ?_) (fun key => ?_) (fun wr member => ?_)
    (fun wr member => ?_) (fun wr member => ?_)
  · obtain ⟨row, _, _, rfl⟩ := logged wr member
    rfl
  · rw [updateLog, changesOn_rows
      (fun row => updateRecord stmt.table row (applyAssignments stmt.assignments row)) keyed
      (fun _ => rfl) (fun row key hasId => recordKey_of_id ((sameId row).trans hasId)),
      lookup_map sameIdUpdated]
    unfold TableStorage.rowAt
    cases lookup Row.id? (storage.rows stmt.table) key with
    | none => exact .nil _
    | some row =>
      rw [Option.map_some, updatedRow]
      by_cases hit : matchesWhere stmt.where? row = true
      · rw [if_pos hit, Option.filter_some_pos hit]
        exact .cons (.nil _)
      · rw [if_neg hit, Option.filter_some_neg (by simpa using hit)]
        exact .nil _
  · obtain ⟨row, inside, _, rfl⟩ := logged wr member
    obtain ⟨own, hasId⟩ := Option.isSome_iff_exists.mp (keyed.isSome row inside)
    have newId := (sameId row).trans hasId
    have ownKey : recordKey (applyAssignments stmt.assignments row) = own := recordKey_of_id newId
    exact ⟨fun _ => by simp only [updateRecord, ownKey, newId],
      fun _ => by simp only [updateRecord, ownKey, hasId]⟩
  · obtain ⟨row, inside, hit, rfl⟩ := logged wr member
    exact Or.inr (List.mem_map.mpr ⟨row, inside, if_pos hit⟩)
  · obtain ⟨row, inside, _, rfl⟩ := logged wr member
    exact Or.inr inside

theorem effect_delete {storage : TableStorage} {stmt : DeleteStatement}
    (keyed : Keyed Row.id? (storage.rows stmt.table)) :
    Effect storage
      (storage.setRows stmt.table
        ((storage.rows stmt.table).filter fun row => !matchesWhere stmt.where? row))
      (deleteLog stmt (storage.rows stmt.table)) := by
  have logged : ∀ wr ∈ deleteLog stmt (storage.rows stmt.table), ∃ row ∈ storage.rows stmt.table,
      wr = deleteRecord stmt.table row := by
    intro wr member
    obtain ⟨row, inside, rfl⟩ := List.mem_map.mp member
    exact ⟨row, (List.mem_filter.mp inside).1, rfl⟩
  refine effect_setRows (fun wr member => ?_) (fun key => ?_) (fun wr member => ?_)
    (fun wr member => ?_) (fun wr member => ?_)
  · obtain ⟨row, _, rfl⟩ := logged wr member
    rfl
  · rw [deleteLog, changesOn_rows (deleteRecord stmt.table) keyed (fun _ => rfl)
      (fun row key hasId => recordKey_of_id hasId), lookup_filter keyed]
    unfold TableStorage.rowAt
    cases lookup Row.id? (storage.rows stmt.table) key with
    | none => exact .nil _
    | some row =>
      by_cases hit : matchesWhere stmt.where? row = true
      · rw [Option.filter_some_pos hit, Option.filter_some_neg (by simp [hit])]
        exact .cons (.nil _)
      · rw [Option.filter_some_neg (by simpa using hit),
          Option.filter_some_pos (by simpa using hit)]
        exact .nil _
  · obtain ⟨row, inside, rfl⟩ := logged wr member
    obtain ⟨own, hasId⟩ := Option.isSome_iff_exists.mp (keyed.isSome row inside)
    exact ⟨fun notDelete => absurd rfl notDelete,
      fun _ => by simp only [deleteRecord, recordKey_of_id hasId, hasId]⟩
  · obtain ⟨row, _, rfl⟩ := logged wr member
    exact Or.inl rfl
  · obtain ⟨row, inside, rfl⟩ := logged wr member
    exact Or.inr inside

/-- **A statement logs what it did.** -/
theorem executeDml_effect {stmt : DmlStatement} {storage storage' : TableStorage}
    {txn : Transaction} {txn' : Option Transaction} (keepsId : stmt.assignsId = false)
    (active : txn.active = true) (keyed : storage.WellKeyed) (keyed' : storage'.WellKeyed)
    (done : executeDml stmt storage (some txn) = .ok (storage', txn')) :
    ∃ log, txn' = some (txn.extend log) ∧ Effect storage storage' log := by
  cases stmt with
  | insert stmt =>
    simp only [executeDml, executeInsert] at done
    split at done
    · cases done
    · rename_i rows found
      cases built : buildRow stmt.columns stmt.values ∅ with
      | error fault => rw [built] at done; cases done
      | ok row =>
        rw [built] at done
        cases done
        refine ⟨[insertRecord stmt.table row], logIfActive_some active _, ?_⟩
        have atTable := keyed' stmt.table
        rw [← TableStorage.rows_of_lookup found] at atTable ⊢
        rw [TableStorage.rows_setRows_self] at atTable
        exact effect_insert atTable
  | update stmt =>
    simp only [executeDml, executeUpdate] at done
    split at done
    · cases done
    · rename_i rows found
      rw [updateRows_eq stmt rows txn active] at done
      cases done
      refine ⟨_, rfl, ?_⟩
      rw [← TableStorage.rows_of_lookup found]
      exact effect_update (by simpa [DmlStatement.assignsId] using keepsId) (keyed stmt.table)
  | delete stmt =>
    simp only [executeDml, executeDelete] at done
    split at done
    · cases done
    · rename_i rows found
      rw [deleteRows_eq stmt rows txn active] at done
      cases done
      refine ⟨_, rfl, ?_⟩
      rw [← TableStorage.rows_of_lookup found]
      exact effect_delete (keyed stmt.table)

end Statements

/-! ### A transaction's statements -/

section Transactions

/-- Nothing of the manager changes but one transaction. -/
structure ManagerFrame (id : TxnId) (m m' : TransactionManager) : Prop where
  nextId : m'.nextId = m.nextId
  wal : m'.wal = m.wal
  others : ∀ other, other ≠ id → m'.transactions.lookup other = m.transactions.lookup other

theorem ManagerFrame.refl (id : TxnId) (m : TransactionManager) : ManagerFrame id m m :=
  ⟨rfl, rfl, fun _ _ => rfl⟩

theorem ManagerFrame.trans {id : TxnId} {m m' m'' : TransactionManager}
    (first : ManagerFrame id m m') (second : ManagerFrame id m' m'') : ManagerFrame id m m'' :=
  ⟨second.nextId.trans first.nextId, second.wal.trans first.wal,
    fun other different => (second.others other different).trans (first.others other different)⟩

theorem get_eq_ok {m : TransactionManager} {id : TxnId} {txn : Transaction} :
    m.get id = .ok txn ↔ m.transactions.lookup id = some txn := by
  unfold TransactionManager.get
  split
  · rename_i found
    rw [found]
    simp
  · rename_i missing
    rw [missing]
    simp

/-- **What one statement of a transaction does to the session.** -/
theorem exec_effect {s s' : Session} {id : TxnId} {stmt : DmlStatement} {txn : Transaction}
    (known : s.manager.get id = .ok txn) (active : txn.active = true)
    (keepsId : stmt.assignsId = false) (keyed : s.storage.WellKeyed)
    (keyed' : s'.storage.WellKeyed) (done : s.exec id stmt = .ok s') :
    ∃ log, s'.manager.get id = .ok (txn.extend log) ∧ ManagerFrame id s.manager s'.manager ∧
      Effect s.storage s'.storage log := by
  unfold Session.exec at done
  rw [known] at done
  simp only [bind, Except.bind] at done
  split at done
  · rename_i storage' txn' ran
    cases done
    obtain ⟨log, rfl, effect⟩ := executeDml_effect keepsId active keyed keyed' ran
    refine ⟨log, get_eq_ok.mpr (Finmap.lookup_insert _), ⟨rfl, rfl, fun other different => ?_⟩,
      effect⟩
    exact Finmap.lookup_insert_of_ne _ different
  · cases done
    exact ⟨[], by rw [known, Transaction.extend_nil], .refl _ _, .refl _⟩
  · cases done

theorem Effect.faithfulImages {before after : TableStorage} {log : List WriteRecord}
    (effect : Effect before after log) (faithful : before.Faithful) (faithful' : after.Faithful) :
    ∀ wr ∈ log, wr.FaithfulImages := by
  intro wr member
  refine ⟨?_, ?_⟩
  · rcases effect.newRow wr member with none | inside
    · rw [none]
      exact faithfulText_empty
    · exact faithful' _ _ inside
  · rcases effect.oldRow wr member with none | inside
    · rw [none]
      exact faithfulText_empty
    · exact faithful _ _ inside

/-- What a transaction's statements did, as its write log tells it. -/
structure LogOf (before after : TableStorage) (log : List WriteRecord) : Prop where
  runs : ∀ table key,
    Runs (changesOn table key log) (before.rowAt table key) (after.rowAt table key)
  hasKey : ∀ wr ∈ log, wr.HasKey

/-- **The write log of a transaction is the history of every row**, from the storage it began with
to the one its statements left. -/
theorem statements_effect {P : TableStorage → Prop}
    (keyed : ∀ storage, P storage → storage.WellKeyed) {id : TxnId} {s s' : Session}
    {stmts : List DmlStatement} (run : Statements P id s stmts s') {txn : Transaction}
    (known : s.manager.get id = .ok txn) (active : txn.active = true) (holds : P s.storage) :
    ∃ log, s'.manager.get id = .ok (txn.extend log) ∧ ManagerFrame id s.manager s'.manager ∧
      P s'.storage ∧ LogOf s.storage s'.storage log ∧
      ((∀ storage, P storage → storage.Faithful) → ∀ wr ∈ log, wr.FaithfulImages) := by
  induction run generalizing txn with
  | nil s =>
    exact ⟨[], by rw [known, Transaction.extend_nil], .refl _ _, holds,
      ⟨fun _ _ => .nil _, by simp⟩, by simp⟩
  | @cons s s₁ s₂ stmt rest keepsId done holds₁ _ ih =>
    obtain ⟨log, known₁, frame, effect⟩ :=
      exec_effect known active keepsId (keyed _ holds) (keyed _ holds₁) done
    obtain ⟨log', known₂, frame', holds₂, logOf, faithful⟩ :=
      ih known₁ active holds₁
    refine ⟨log ++ log', ?_, frame.trans frame', holds₂, ⟨fun table key => ?_, ?_⟩, ?_⟩
    · rw [known₂]
      simp [Transaction.extend]
    · rw [changesOn_append]
      exact (effect.runs table key).append (logOf.runs table key)
    · intro wr member
      exact (List.mem_append.mp member).elim (effect.hasKey wr) (logOf.hasKey wr)
    · intro faithfulOf wr member
      exact (List.mem_append.mp member).elim
        (effect.faithfulImages (faithfulOf _ holds) (faithfulOf _ holds₁) wr)
        (faithful faithfulOf wr)

theorem getActive_eq_ok {m : TransactionManager} {id : TxnId} {txn : Transaction}
    (known : m.get id = .ok txn) (active : txn.active = true) : m.getActive id = .ok txn := by
  simp [TransactionManager.getActive, known, active, bind, Except.bind]

/-- What `commit` does with an active transaction. -/
theorem commit_eq_ok {order : RowOrder} {id : TxnId} {s : Session} {txn : Transaction}
    (known : s.manager.get id = .ok txn) (active : txn.active = true) :
    s.commit order id =
      .ok { s with manager := s.manager.close order txn txn.commit id .commit } := by
  unfold Session.commit TransactionManager.commit
  rw [getActive_eq_ok known active]
  rfl

/-- What `rollback` does with an active transaction. -/
theorem rollback_eq_ok {order : RowOrder} {id : TxnId} {s : Session} {txn : Transaction}
    (known : s.manager.get id = .ok txn) (active : txn.active = true) :
    s.rollback order id =
      .ok { manager := s.manager.close order txn txn.abort id .abort
            storage := txn.writeLog.foldr TransactionManager.undoWrite s.storage } := by
  unfold Session.rollback TransactionManager.rollback
  rw [getActive_eq_ok known active]
  rfl

end Transactions

/-! ### Loops over a log, one row at a time -/

section Acts

/-- **A step that changes at most the row of one table and key**, by `g`. -/
def ActsAt (f : TableStorage → TableStorage) (table key : Str) (g : Option Row → Option Row) :
    Prop :=
  ∀ storage : TableStorage, storage.WellKeyed → (f storage).WellKeyed ∧
    ∀ table' key', (f storage).rowAt table' key' =
      if table = table' ∧ key = key' then g (storage.rowAt table' key')
      else storage.rowAt table' key'

/-- A step on the rows of one table that acts on one key there. -/
theorem actsAt_setRows {f : TableStorage → TableStorage} {table key : Str}
    {g : Option Row → Option Row} (step : List Row → List Row)
    (onTable : ∀ storage : TableStorage,
      f storage = storage.setRows table (step (storage.rows table)))
    (keyedStep : ∀ rows, Keyed Row.id? rows → Keyed Row.id? (step rows))
    (lookupStep : ∀ rows, Keyed Row.id? rows → ∀ key', lookup Row.id? (step rows) key' =
      if key' = key then g (lookup Row.id? rows key) else lookup Row.id? rows key') :
    ActsAt f table key g := by
  intro storage keyed
  rw [onTable]
  refine ⟨TableStorage.wellKeyed_setRows keyed (keyedStep _ (keyed table)), fun table' key' => ?_⟩
  rw [TableStorage.rowAt_setRows]
  by_cases sameTable : table = table'
  · subst sameTable
    rw [if_pos rfl, lookupStep _ (keyed table)]
    by_cases sameKey : key = key'
    · subst sameKey
      rw [if_pos rfl, if_pos ⟨rfl, rfl⟩]
      rfl
    · rw [if_neg (Ne.symm sameKey), if_neg fun both => sameKey both.2]
      rfl
  · rw [if_neg (Ne.symm sameTable), if_neg fun both => sameTable both.1]

/-- A loop that goes through a log backwards. -/
theorem rowAt_foldr {log : List WriteRecord} {f : WriteRecord → TableStorage → TableStorage}
    {g : Change Row → Option Row → Option Row}
    (acts : ∀ wr ∈ log, ActsAt (f wr) wr.table wr.key (g wr.change))
    {storage : TableStorage} (keyed : storage.WellKeyed) :
    (log.foldr f storage).WellKeyed ∧ ∀ table key, (log.foldr f storage).rowAt table key =
      (changesOn table key log).foldr g (storage.rowAt table key) := by
  induction log with
  | nil => exact ⟨keyed, fun _ _ => rfl⟩
  | cons wr rest ih =>
    obtain ⟨keyedRest, atRest⟩ := ih fun w member => acts w (List.mem_cons_of_mem _ member)
    obtain ⟨keyedAll, atAll⟩ := acts wr List.mem_cons_self _ keyedRest
    refine ⟨keyedAll, fun table key => ?_⟩
    rw [List.foldr_cons, atAll, atRest, changesOn_cons]
    split <;> rfl

/-- A loop that goes through a log forwards. -/
theorem rowAt_foldl {log : List WriteRecord} {f : WriteRecord → TableStorage → TableStorage}
    {g : Change Row → Option Row → Option Row}
    (acts : ∀ wr ∈ log, ActsAt (f wr) wr.table wr.key (g wr.change)) :
    ∀ {storage : TableStorage}, storage.WellKeyed →
      (log.foldl (fun storage wr => f wr storage) storage).WellKeyed ∧
        ∀ table key, (log.foldl (fun storage wr => f wr storage) storage).rowAt table key =
          (changesOn table key log).foldl (fun row change => g change row)
            (storage.rowAt table key) := by
  induction log with
  | nil => exact fun keyed => ⟨keyed, fun _ _ => rfl⟩
  | cons wr rest ih =>
    intro storage keyed
    obtain ⟨keyedHead, atHead⟩ := acts wr List.mem_cons_self storage keyed
    obtain ⟨keyedAll, atAll⟩ :=
      ih (fun w member => acts w (List.mem_cons_of_mem _ member)) keyedHead
    refine ⟨keyedAll, fun table key => ?_⟩
    rw [List.foldl_cons, atAll, atHead, changesOn_cons]
    split <;> rfl

end Acts

/-! ### Undoing in memory -/

section Undo

theorem removeKey_eq_erase (key : Str) (rows : List Row) :
    removeKey key rows = erase Row.id? rows key := by
  simp [removeKey, erase, hasKey]

theorem restoreFirst_eq_replace (key : Str) (oldRow : Row) (rows : List Row) :
    TransactionManager.restoreFirst key oldRow rows = replace Row.id? key oldRow rows := by
  induction rows with
  | nil => rfl
  | cons row rest ih => simp [TransactionManager.restoreFirst, replace, hasKey, ih]

open TransactionManager (undoWrite)

/-- What one step of the undo loop does to the rows of its table. -/
def undoRows (wr : WriteRecord) (rows : List Row) : List Row :=
  match wr.type with
  | .insert => removeKey wr.key rows
  | .update | .delete => TransactionManager.restoreFirst wr.key wr.oldRow rows

theorem undoWrite_eq (wr : WriteRecord) (storage : TableStorage) :
    undoWrite wr storage = storage.setRows wr.table (undoRows wr (storage.rows wr.table)) := by
  unfold undoWrite undoRows
  cases wr.type <;> rfl

theorem rows_undoWrite (wr : WriteRecord) (storage : TableStorage) (table : Str) :
    (undoWrite wr storage).rows table =
      if table = wr.table then undoRows wr (storage.rows table) else storage.rows table := by
  rw [undoWrite_eq, TableStorage.rows_setRows]
  split
  · rename_i same
    rw [same]
  · rfl

/-- **One step of the undo loop** reverts the row its record is about. -/
theorem undoWrite_acts {wr : WriteRecord} (own : wr.HasKey) :
    ActsAt (undoWrite wr) wr.table wr.key wr.change.undo := by
  cases type : wr.type with
  | insert =>
    refine actsAt_setRows (fun rows => erase Row.id? rows wr.key) (fun storage => ?_)
      (fun rows keyed => keyed_erase keyed _) fun rows _ key' => ?_
    · simp only [undoWrite, type, removeKey_eq_erase]
    · rw [lookup_erase, WriteRecord.change, type]
      rfl
  | update =>
    have hasId := own.oldRow (by simp [type])
    refine actsAt_setRows (replace Row.id? wr.key wr.oldRow) (fun storage => ?_)
      (fun rows keyed => keyed_replace keyed hasId) fun rows _ key' => ?_
    · simp only [undoWrite, type, restoreFirst_eq_replace]
    · rw [lookup_replace _ hasId, WriteRecord.change, type]
      rfl
  | delete =>
    have hasId := own.oldRow (by simp [type])
    refine actsAt_setRows (replace Row.id? wr.key wr.oldRow) (fun storage => ?_)
      (fun rows keyed => keyed_replace keyed hasId) fun rows _ key' => ?_
    · simp only [undoWrite, type, restoreFirst_eq_replace]
    · rw [lookup_replace _ hasId, WriteRecord.change, type]
      rfl

/-- **The undo loop**, row by row: each row's history is undone. -/
theorem rowAt_undoWrites {log : List WriteRecord} (own : ∀ wr ∈ log, wr.HasKey)
    {storage : TableStorage} (keyed : storage.WellKeyed) :
    (log.foldr undoWrite storage).WellKeyed ∧ ∀ table key,
      (log.foldr undoWrite storage).rowAt table key =
        undoAll (changesOn table key log) (storage.rowAt table key) :=
  rowAt_foldr (fun wr member => undoWrite_acts (own wr member)) keyed

end Undo

end MyDb
