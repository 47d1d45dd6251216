/-
**Writes in place: the log as a run of the storage, row order included.**

`Writes storage log storage'` applies the records of a log one after the other, each fitting the
storage it meets: an insert's id is not there yet, and what an update or a delete overwrites or
takes out is the record's old row. `executeDml_writes`: the executor's set-oriented statements are
such runs of their own log. Redo follows such a run exactly (`Writes.redo`), so recovery from the
log of a run of committing transactions rebuilds the storage the executor left
(`recover_simulates_executor`).
-/

import MyDatabaseEngine.Txn.Recovery

namespace MyDb

open KeyedList
open TransactionManager (undoWrite)

/-! ### Storages, as finite maps -/

namespace TableStorage

theorem setRows_setRows (storage : TableStorage) (table : Str) (rows rows' : List Row) :
    (storage.setRows table rows).setRows table rows' = storage.setRows table rows' :=
  Finmap.insert_insert _

theorem setRows_comm (storage : TableStorage) {table table' : Str} (different : table ≠ table')
    (rows rows' : List Row) :
    (storage.setRows table rows).setRows table' rows' =
      (storage.setRows table' rows').setRows table rows :=
  Finmap.insert_insert_of_ne _ different

/-- Storing what a table holds already. -/
theorem setRows_self {storage : TableStorage} {table : Str} {rows : List Row}
    (found : storage.lookup table = some rows) : storage.setRows table rows = storage := by
  apply Finmap.ext_lookup
  intro other
  by_cases same : other = table
  · rw [same, found]
    exact Finmap.lookup_insert _
  · exact Finmap.lookup_insert_of_ne _ same

end TableStorage

/-! ### Runs of writes -/

section Writes

/-- **The record fits the storage.** -/
structure WriteRecord.Fits (wr : WriteRecord) (storage : TableStorage) : Prop where
  hasKey : wr.HasKey
  hasTable : wr.table ∈ storage
  absent : wr.type = .insert → storage.rowAt wr.table wr.key = none
  found : wr.type ≠ .insert → storage.rowAt wr.table wr.key = some wr.oldRow

/-- **Fitting writes one after the other.** -/
inductive Writes : TableStorage → List WriteRecord → TableStorage → Prop
  | nil (storage : TableStorage) : Writes storage [] storage
  | cons {storage storage' : TableStorage} {wr : WriteRecord} {log : List WriteRecord} :
      wr.Fits storage → Writes (applyWrite wr storage) log storage' →
        Writes storage (wr :: log) storage'

variable {storage storage' storage'' : TableStorage} {log log' : List WriteRecord}

theorem Writes.append (first : Writes storage log storage')
    (second : Writes storage' log' storage'') :
    Writes storage (log ++ log') storage'' := by
  induction first with
  | nil => exact second
  | cons fits _ ih => exact .cons fits (ih second)

theorem Writes.hasKey (writes : Writes storage log storage') : ∀ wr ∈ log, wr.HasKey := by
  induction writes with
  | nil => exact fun _ member => absurd member List.not_mem_nil
  | cons fits _ ih => exact List.forall_mem_cons.mpr ⟨fits.hasKey, ih⟩

/-- A run's end is its log applied to its start. -/
theorem Writes.eq_applyWrites (writes : Writes storage log storage') :
    storage' = applyWrites log storage := by
  induction writes with
  | nil => rfl
  | cons _ _ ih => exact ih

/-- **What a fitting write does to its table.** -/
theorem WriteRecord.Fits.applyWrite_eq {wr : WriteRecord} (fits : wr.Fits storage) :
    applyWrite wr storage = storage.setRows wr.table
      (match wr.type with
        | .insert => storage.rows wr.table ++ [wr.newRow]
        | .update => replace Row.id? wr.key wr.newRow (storage.rows wr.table)
        | .delete => erase Row.id? (storage.rows wr.table) wr.key) := by
  cases type : wr.type with
  | insert => simp only [applyWrite, type, upsert_of_lookup_none (fits.absent type)]
  | update => simp only [applyWrite, type, upsert_of_lookup (fits.found (by simp [type]))]
  | delete => simp only [applyWrite, type]

/-- **Redo of a fitting write.** -/
theorem redoWrite_eq {wr : WriteRecord} (fits : wr.Fits storage) (keyed : storage.WellKeyed) :
    redoWrite wr storage = applyWrite wr storage := by
  rw [fits.applyWrite_eq]
  cases type : wr.type with
  | insert =>
    have absent := fits.absent type
    unfold TableStorage.rowAt at absent
    simp only [redoWrite, type, any_hasKey, absent, Option.isSome_none, if_neg Bool.false_ne_true]
  | update =>
    have found := fits.found (by simp [type])
    unfold TableStorage.rowAt at found
    have search := overwriteFirst_eq (keyed wr.table).isSome wr.key wr.newRow
    simp only [redoWrite, type, search, found, Option.isSome_some, if_true]
  | delete => simp only [redoWrite, type, removeKey_eq_erase]

/-- **Redo follows a run of writes.** -/
theorem Writes.redo (writes : Writes storage log storage') (keyed : storage.WellKeyed) :
    log.foldl (fun storage wr => redoWrite wr storage) storage = storage' := by
  induction writes with
  | nil => rfl
  | cons fits _ ih =>
    rw [List.foldl_cons, redoWrite_eq fits keyed]
    exact ih (applyWrite_acts fits.hasKey _ keyed).1

end Writes

/-! ### The executor's statements -/

section Executor

variable {storage storage' : TableStorage}

theorem writes_insert {table : Str} {rows : List Row} {row : Row}
    (found : storage.lookup table = some rows) (keyed' : Keyed Row.id? (rows ++ [row])) :
    Writes storage [insertRecord table row] (storage.setRows table (rows ++ [row])) := by
  obtain ⟨own, hasId⟩ := Option.isSome_iff_exists.mp (keyed'.isSome row (by simp))
  have ownKey : (insertRecord table row).key = own := recordKey_of_id hasId
  have stored := TableStorage.rows_of_lookup found
  have fits : (insertRecord table row).Fits storage := by
    refine ⟨⟨fun _ => ?_, fun other => absurd rfl other⟩, Finmap.mem_of_lookup_eq_some found,
      fun _ => ?_, fun other => absurd rfl other⟩
    · rw [ownKey]
      exact hasId
    · show lookup Row.id? (storage.rows table) _ = none
      rw [stored, ownKey]
      exact fresh_of_keyed_concat keyed' hasId
  have result := fits.applyWrite_eq
  refine .cons fits ?_
  rw [result]
  show Writes (storage.setRows table (storage.rows table ++ [row])) [] _
  rw [stored]
  exact .nil _

/-- The UPDATE loop from some row on, the rows before it updated. -/
theorem writes_update {stmt : UpdateStatement} (keepsId : idColumn ∉ stmt.assignments.map Prod.fst)
    (rest : List Row) : ∀ {storage : TableStorage} {before : List Row},
      storage.lookup stmt.table = some (before ++ rest) → Keyed Row.id? (before ++ rest) →
        Writes storage (updateLog stmt rest)
          (storage.setRows stmt.table (before ++ rest.map (updatedRow stmt))) := by
  induction rest with
  | nil =>
    intro storage before found _
    rw [List.map_nil, TableStorage.setRows_self found]
    exact .nil _
  | cons row rest ih =>
    intro storage before found keyed
    by_cases hit : matchesWhere stmt.where? row = true
    · obtain ⟨newRow, isNew⟩ : ∃ newRow, newRow = applyAssignments stmt.assignments row := ⟨_, rfl⟩
      have updated : updatedRow stmt row = newRow := isNew ▸ if_pos hit
      have logged : updateLog stmt (row :: rest) =
          updateRecord stmt.table row newRow :: updateLog stmt rest := by
        simp [updateLog, hit, isNew]
      obtain ⟨own, hasId⟩ := Option.isSome_iff_exists.mp (keyed.isSome row (by simp))
      have newId : newRow.id? = some own := isNew ▸ (id_applyAssignments keepsId row).trans hasId
      have ownKey : (updateRecord stmt.table row newRow).key = own := recordKey_of_id newId
      obtain ⟨absent, _⟩ := keyed.apart hasId
      have stored := TableStorage.rows_of_lookup found
      have fits : (updateRecord stmt.table row newRow).Fits storage := by
        refine ⟨⟨fun _ => ?_, fun _ => ?_⟩, Finmap.mem_of_lookup_eq_some found,
          fun other => (by cases other), fun _ => ?_⟩
        · rw [ownKey]
          exact newId
        · rw [ownKey]
          exact hasId
        · show lookup Row.id? (storage.rows stmt.table) _ = some row
          rw [stored, ownKey, lookup_append, absent, Option.none_or, lookup_cons, if_pos hasId]
      have inPlace : replace Row.id? own newRow (before ++ row :: rest) =
          before ++ newRow :: rest :=
        replace_at absent hasId
      have applied : applyWrite (updateRecord stmt.table row newRow) storage =
          storage.setRows stmt.table ((before ++ [newRow]) ++ rest) := by
        rw [fits.applyWrite_eq]
        show storage.setRows stmt.table (replace Row.id? _ newRow (storage.rows stmt.table)) = _
        rw [stored, ownKey, inPlace, List.append_assoc, List.singleton_append]
      have later := @ih (storage.setRows stmt.table ((before ++ [newRow]) ++ rest))
        (before ++ [newRow]) (Finmap.lookup_insert _) (by
          rw [List.append_assoc, List.singleton_append, ← inPlace]
          exact keyed_replace keyed newId)
      have shift : before ++ [newRow] ++ rest.map (updatedRow stmt) =
          before ++ newRow :: rest.map (updatedRow stmt) := (List.append_cons ..).symm
      rw [TableStorage.setRows_setRows, shift] at later
      rw [logged, List.map_cons, updated]
      refine .cons fits ?_
      rw [applied]
      exact later
    · have logged : updateLog stmt (row :: rest) = updateLog stmt rest := by
        simp [updateLog, hit]
      have kept : updatedRow stmt row = row := if_neg hit
      have split : before ++ row :: rest = (before ++ [row]) ++ rest := by simp
      have later := @ih storage (before ++ [row]) (split ▸ found) (split ▸ keyed)
      rw [List.append_assoc, List.singleton_append] at later
      rw [logged, List.map_cons, kept]
      exact later

/-- The DELETE loop from some row on, the rows before it kept. -/
theorem writes_delete {stmt : DeleteStatement} (rest : List Row) :
    ∀ {storage : TableStorage} {before : List Row},
      storage.lookup stmt.table = some (before ++ rest) → Keyed Row.id? (before ++ rest) →
        Writes storage (deleteLog stmt rest)
          (storage.setRows stmt.table
            (before ++ rest.filter fun row => !matchesWhere stmt.where? row)) := by
  induction rest with
  | nil =>
    intro storage before found _
    rw [List.filter_nil, TableStorage.setRows_self found]
    exact .nil _
  | cons row rest ih =>
    intro storage before found keyed
    by_cases hit : matchesWhere stmt.where? row = true
    · have logged : deleteLog stmt (row :: rest) =
          deleteRecord stmt.table row :: deleteLog stmt rest := by
        simp [deleteLog, hit]
      obtain ⟨own, hasId⟩ := Option.isSome_iff_exists.mp (keyed.isSome row (by simp))
      have ownKey : (deleteRecord stmt.table row).key = own := recordKey_of_id hasId
      obtain ⟨absent, absent'⟩ := keyed.apart hasId
      have stored := TableStorage.rows_of_lookup found
      have fits : (deleteRecord stmt.table row).Fits storage := by
        refine ⟨⟨fun other => absurd rfl other, fun _ => ?_⟩, Finmap.mem_of_lookup_eq_some found,
          fun other => (by cases other), fun _ => ?_⟩
        · rw [ownKey]
          exact hasId
        · show lookup Row.id? (storage.rows stmt.table) _ = some row
          rw [stored, ownKey, lookup_append, absent, Option.none_or, lookup_cons, if_pos hasId]
      have applied : applyWrite (deleteRecord stmt.table row) storage =
          storage.setRows stmt.table (before ++ rest) := by
        rw [fits.applyWrite_eq]
        show storage.setRows stmt.table (erase Row.id? (storage.rows stmt.table) _) = _
        rw [stored, ownKey, erase_at absent absent' hasId]
      have later := @ih (storage.setRows stmt.table (before ++ rest)) before
        (Finmap.lookup_insert _)
        (keyed.sublist ((List.sublist_cons_self row rest).append_left before))
      rw [TableStorage.setRows_setRows] at later
      rw [logged, List.filter_cons_of_neg (by simp [hit])]
      refine .cons fits ?_
      rw [applied]
      exact later
    · have logged : deleteLog stmt (row :: rest) = deleteLog stmt rest := by
        simp [deleteLog, hit]
      have split : before ++ row :: rest = (before ++ [row]) ++ rest := by simp
      have later := @ih storage (before ++ [row]) (split ▸ found) (split ▸ keyed)
      rw [List.append_assoc, List.singleton_append] at later
      rw [logged, List.filter_cons_of_pos (by simp [hit])]
      exact later

/-- The kind of write a statement makes. -/
def DmlStatement.kind : DmlStatement → WriteType
  | .insert _ => .insert
  | .update _ => .update
  | .delete _ => .delete

/-- **A statement is a run of the writes it logs.** -/
theorem executeDml_writes {stmt : DmlStatement} {txn : Transaction} {txn' : Option Transaction}
    (keepsId : stmt.assignsId = false) (active : txn.active = true) (keyed : storage.WellKeyed)
    (keyed' : storage'.WellKeyed)
    (done : executeDml stmt storage (some txn) = .ok (storage', txn')) :
    ∃ log, txn' = some (txn.extend log) ∧ Writes storage log storage' ∧
      ∀ wr ∈ log, wr.type = stmt.kind := by
  cases stmt with
  | insert stmt =>
    simp only [executeDml, executeInsert] at done
    split at done
    · cases done
    · rename_i rows found
      cases built : buildRow stmt.columns stmt.values ∅ with
      | error fault => rw [built] at done; cases done
      | ok row =>
        rw [built] at done
        cases done
        have atTable := keyed' stmt.table
        rw [TableStorage.rows_setRows_self] at atTable
        exact ⟨[insertRecord stmt.table row], logIfActive_some active _,
          writes_insert found atTable,
          fun wr member => by rw [List.mem_singleton.mp member]; rfl⟩
  | update stmt =>
    simp only [executeDml, executeUpdate] at done
    split at done
    · cases done
    · rename_i rows found
      rw [updateRows_eq stmt rows txn active] at done
      cases done
      have atTable := keyed stmt.table
      rw [TableStorage.rows_of_lookup found] at atTable
      have writes : Writes storage (updateLog stmt rows)
          (storage.setRows stmt.table ([] ++ rows.map (updatedRow stmt))) :=
        writes_update (by simpa [DmlStatement.assignsId] using keepsId) rows found atTable
      refine ⟨_, rfl, writes, fun wr member => ?_⟩
      obtain ⟨row, _, rfl⟩ := List.mem_map.mp member
      rfl
  | delete stmt =>
    simp only [executeDml, executeDelete] at done
    split at done
    · cases done
    · rename_i rows found
      rw [deleteRows_eq stmt rows txn active] at done
      cases done
      have atTable := keyed stmt.table
      rw [TableStorage.rows_of_lookup found] at atTable
      have writes : Writes storage (deleteLog stmt rows) (storage.setRows stmt.table
          ([] ++ rows.filter fun row => !matchesWhere stmt.where? row)) :=
        writes_delete rows found atTable
      refine ⟨_, rfl, writes, fun wr member => ?_⟩
      obtain ⟨row, _, rfl⟩ := List.mem_map.mp member
      rfl

end Executor

/-! ### Statements with plain text -/

section Text

/-- A value without `;`. -/
def Expr.PlainText : Expr → Prop
  | .literal _ value => chr ';' ∉ value
  | _ => True

instance : DecidablePred Expr.PlainText
  | .literal _ value => inferInstanceAs (Decidable (chr ';' ∉ value))
  | .columnRef _ _ => .isTrue trivial
  | .binary _ _ _ => .isTrue trivial
  | .unary _ _ => .isTrue trivial

/-- **The columns and values a statement writes are plain.** -/
def DmlStatement.PlainText : DmlStatement → Prop
  | .insert stmt => (∀ col ∈ stmt.columns, PlainColumn col) ∧ ∀ value ∈ stmt.values, value.PlainText
  | .update stmt => ∀ a ∈ stmt.assignments, PlainColumn a.1 ∧ a.2.PlainText
  | .delete _ => True

instance : DecidablePred DmlStatement.PlainText
  | .insert _ => inferInstanceAs (Decidable (_ ∧ _))
  | .update stmt =>
    inferInstanceAs (Decidable (∀ a ∈ stmt.assignments, PlainColumn a.1 ∧ a.2.PlainText))
  | .delete _ => .isTrue trivial

variable {row : Row}

theorem plain_extractLiteral {e : Expr} (plain : e.PlainText) : chr ';' ∉ extractLiteral e := by
  cases e with
  | literal kind value => exact plain
  | _ => exact List.not_mem_nil

theorem plain_resolveExpr {e : Expr} (plain : e.PlainText) (faithful : FaithfulText row) :
    chr ';' ∉ resolveExpr e row := by
  cases e with
  | literal kind value => exact plain
  | columnRef table column =>
    show chr ';' ∉ (row.lookup column).getD []
    cases found : row.lookup column with
    | none => exact List.not_mem_nil
    | some val => exact (faithful ⟨column, val⟩ (Finmap.mem_lookup_iff.mp found)).2.2.2
  | _ => exact List.not_mem_nil

theorem faithfulText_buildRow {columns : List Str} {values : List Expr} {row' : Row}
    (plain : ∀ col ∈ columns, PlainColumn col) (plainValues : ∀ value ∈ values, value.PlainText)
    (faithful : FaithfulText row) (built : buildRow columns values row = .ok row') :
    FaithfulText row' := by
  induction columns, values, row using buildRow.induct with
  | case1 values row =>
    cases built
    exact faithful
  | case2 column columns row => cases built
  | case3 column columns value values row ih =>
    refine ih (fun col member => plain col (List.mem_cons_of_mem _ member))
      (fun v member => plainValues v (List.mem_cons_of_mem _ member)) ?_ built
    exact faithfulText_insert faithful (plain column List.mem_cons_self)
      (plain_extractLiteral (plainValues value List.mem_cons_self))

theorem faithfulText_applyAssignments {assignments : List (Str × Expr)}
    (plain : ∀ a ∈ assignments, PlainColumn a.1 ∧ a.2.PlainText) (faithful : FaithfulText row) :
    FaithfulText (applyAssignments assignments row) := by
  unfold applyAssignments
  induction assignments generalizing row with
  | nil => exact faithful
  | cons a rest ih =>
    obtain ⟨column, value⟩ := plain a List.mem_cons_self
    exact ih (fun b member => plain b (List.mem_cons_of_mem _ member))
      (faithfulText_insert faithful column (plain_resolveExpr value faithful))

theorem faithful_setRows {storage : TableStorage} (faithful : storage.Faithful) {table : Str}
    {rows : List Row} (faithfulRows : ∀ row ∈ rows, FaithfulText row) :
    (storage.setRows table rows).Faithful := by
  intro other
  rw [TableStorage.rows_setRows]
  split
  · exact faithfulRows
  · exact faithful other

/-- **A plain statement keeps every row's text faithful.** -/
theorem executeDml_faithful {stmt : DmlStatement} {storage storage' : TableStorage}
    {txn : Transaction} {txn' : Option Transaction} (plain : stmt.PlainText)
    (active : txn.active = true) (faithful : storage.Faithful)
    (done : executeDml stmt storage (some txn) = .ok (storage', txn')) : storage'.Faithful := by
  cases stmt with
  | insert stmt =>
    simp only [executeDml, executeInsert] at done
    split at done
    · cases done
    · rename_i rows found
      cases built : buildRow stmt.columns stmt.values ∅ with
      | error fault => rw [built] at done; cases done
      | ok row =>
        rw [built] at done
        cases done
        refine faithful_setRows faithful fun r member => ?_
        rcases List.mem_append.mp member with old | new
        · exact faithful stmt.table r (TableStorage.rows_of_lookup found ▸ old)
        · rw [List.mem_singleton.mp new]
          exact faithfulText_buildRow plain.1 plain.2 faithfulText_empty built
  | update stmt =>
    simp only [executeDml, executeUpdate] at done
    split at done
    · cases done
    · rename_i rows found
      rw [updateRows_eq stmt rows txn active] at done
      cases done
      refine faithful_setRows faithful fun r member => ?_
      obtain ⟨old, inside, rfl⟩ := List.mem_map.mp member
      have oldFaithful := faithful stmt.table old (TableStorage.rows_of_lookup found ▸ inside)
      unfold updatedRow
      split
      · exact faithfulText_applyAssignments plain oldFaithful
      · exact oldFaithful
  | delete stmt =>
    simp only [executeDml, executeDelete] at done
    split at done
    · cases done
    · rename_i rows found
      rw [deleteRows_eq stmt rows txn active] at done
      cases done
      refine faithful_setRows faithful fun r member => ?_
      exact faithful stmt.table r
        (TableStorage.rows_of_lookup found ▸ (List.mem_filter.mp member).1)

end Text

/-! ### A run of committing transactions -/

section Runs

variable {order : RowOrder} {id : TxnId} {s s' : Session} {txn : Transaction}

/-- **What one statement of a transaction writes.** -/
theorem exec_writes {stmt : DmlStatement} (known : s.manager.get id = .ok txn)
    (active : txn.active = true) (keepsId : stmt.assignsId = false) (keyed : s.storage.WellKeyed)
    (keyed' : s'.storage.WellKeyed) (done : s.exec id stmt = .ok s') :
    ∃ log, s'.manager.get id = .ok (txn.extend log) ∧ ManagerFrame id s.manager s'.manager ∧
      Writes s.storage log s'.storage ∧ (∀ wr ∈ log, wr.type = stmt.kind) ∧
      (stmt.PlainText → s.storage.Faithful → s'.storage.Faithful) := by
  unfold Session.exec at done
  rw [known] at done
  simp only [bind, Except.bind] at done
  split at done
  · rename_i storage' txn' ran
    cases done
    obtain ⟨log, rfl, writes, kinds⟩ := executeDml_writes keepsId active keyed keyed' ran
    refine ⟨log, get_eq_ok.mpr (Finmap.lookup_insert _), ⟨rfl, rfl, fun other different => ?_⟩,
      writes, kinds, fun plain faithful => executeDml_faithful plain active faithful ran⟩
    exact Finmap.lookup_insert_of_ne _ different
  · cases done
    exact ⟨[], by rw [known, Transaction.extend_nil], .refl _ _, .nil _, by simp, fun _ h => h⟩
  · cases done

/-- **Plain statements under one transaction**: they write their log, and every row stays
loggable. -/
theorem statements_writes {stmts : List DmlStatement}
    (run : Statements TableStorage.WellKeyed id s stmts s') (plain : ∀ stmt ∈ stmts, stmt.PlainText)
    (known : s.manager.get id = .ok txn) (active : txn.active = true)
    (loggable : LoggableStorage s.storage) :
    Statements LoggableStorage id s stmts s' ∧ LoggableStorage s'.storage ∧
      ∃ log, s'.manager.get id = .ok (txn.extend log) ∧ Writes s.storage log s'.storage := by
  induction run generalizing txn with
  | nil s =>
    exact ⟨.nil s, loggable, [], by rw [known, Transaction.extend_nil], .nil _⟩
  | @cons s s₁ s₂ stmt rest keepsId done keyed₁ _ ih =>
    obtain ⟨log, known₁, _, writes, _, faithful⟩ :=
      exec_writes known active keepsId loggable.1 keyed₁ done
    have loggable₁ : LoggableStorage s₁.storage :=
      ⟨keyed₁, faithful (plain stmt List.mem_cons_self) loggable.2⟩
    obtain ⟨run, loggable₂, log', known₂, writes'⟩ :=
      ih (fun stmt member => plain stmt (List.mem_cons_of_mem _ member)) known₁ active loggable₁
    refine ⟨.cons keepsId done loggable₁ run, loggable₂, log ++ log', ?_, writes.append writes'⟩
    rw [known₂]
    simp [Transaction.extend]

/-- **A run of plain transactions that all commit**: its committed writes lead from its first
storage to its last. -/
theorem serialRun_writes {scripts : List TxnScript} {history : List TxnHistory}
    (run : SerialRun order TableStorage.WellKeyed s scripts history s')
    (allCommit : ∀ script ∈ scripts, script.commits)
    (plain : ∀ script ∈ scripts, ∀ stmt ∈ script.statements, stmt.PlainText)
    (ready : s.manager.Ready) (loggable : LoggableStorage s.storage) :
    SerialRun order LoggableStorage s scripts history s' ∧
      Writes s.storage (committedWrites history) s'.storage := by
  induction run with
  | done s => exact ⟨.done s, .nil _⟩
  | @commit s s₁ s₂ s₃ s₄ id txn stmts rest history begun stmtsRun known done keyed₃ _ ih =>
    cases begun
    obtain ⟨_, _, known₁, _, _, _⟩ := begin_ready ready rfl
    obtain ⟨loggableRun, loggable₂, log, known₂, writes⟩ := statements_writes stmtsRun
      (plain _ List.mem_cons_self) known₁ rfl loggable
    cases known.symm.trans known₂
    have loggable₃ : LoggableStorage s₃.storage := by
      cases (commit_eq_ok known rfl).symm.trans done
      exact loggable₂
    obtain ⟨_, step⟩ := txnStep_close order ready loggable rfl loggableRun known
    have ready₃ : s₃.manager.Ready := by
      cases (commit_eq_ok known rfl).symm.trans done
      exact (step true (Transaction.extend { id := s.manager.nextId } log).commit loggable₂).ready
    obtain ⟨later, writes'⟩ :=
      ih (fun script member => allCommit script (List.mem_cons_of_mem _ member))
      (fun script member => plain script (List.mem_cons_of_mem _ member)) ready₃ loggable₃
    refine ⟨.commit rfl loggableRun known done loggable₃ later, ?_⟩
    rw [committedWrites_cons, if_pos rfl]
    have same : s₃.storage = s₂.storage := by
      cases (commit_eq_ok known rfl).symm.trans done
      rfl
    have own : (Transaction.extend { id := s.manager.nextId } log).writeLog = log :=
      List.nil_append log
    rw [own]
    rw [same] at writes'
    exact writes.append writes'
  | rollback => exact absurd (allCommit _ List.mem_cons_self) Bool.false_ne_true

/-- **Redo simulates the executor.** For transactions that all commit, recovery of the first storage
with their log gives the storage the executor ended in, every table row by row in the same order. -/
theorem recover_simulates_executor {wal : Wal} {scripts : List TxnScript}
    {history : List TxnHistory} (fresh : s.manager = { wal := some wal })
    (unused : wal.appended = []) (keyed : s.storage.WellKeyed) (faithful : s.storage.Faithful)
    (allCommit : ∀ script ∈ scripts, script.commits)
    (plain : ∀ script ∈ scripts, ∀ stmt ∈ script.statements, stmt.PlainText)
    (run : SerialRun order TableStorage.WellKeyed s scripts history s') :
    recoverFrom s'.manager.records s.storage = s'.storage := by
  have ready := ready_of_fresh fresh
  obtain ⟨loggableRun, writes⟩ := serialRun_writes run allCommit plain ready ⟨keyed, faithful⟩
  have runOf := serialRun_runOf loggableRun ready ⟨keyed, faithful⟩
  have contents : s'.manager.records.map LogRecord.content =
      runLog order s.manager.nextId history := by
    rw [runOf.contents, fresh]
    show wal.appended.map LogRecord.content ++ _ = _
    rw [unused]
    rfl
  obtain ⟨committed, rolledBack⟩ := writesWhere_runLog order runOf.faithful
    (tells_committedIds order s.manager.nextId history)
  rw [← recoverFrom_content, contents, recoverFrom_eq_writes, committed, rolledBack,
    rolledBackWrites_of_committed (committed_of_scripts run allCommit)]
  exact writes.redo keyed

/-- A row is inserted, all rows are deleted, and an id comes back. -/
def reinsertingScripts : List TxnScript :=
  [⟨[insertUser "1", insertUser "2"], true⟩, ⟨[deleteUsers, insertUser "1"], true⟩]

theorem recover_simulates_executor_reinserted : ∃ s' history,
    SerialRun default TableStorage.WellKeyed freshSession reinsertingScripts history s' ∧
      recoverFrom s'.manager.records freshSession.storage = s'.storage := by
  have run : SerialRun default TableStorage.WellKeyed freshSession reinsertingScripts _ _ :=
    .commit rfl (.cons (by decide) rfl (by decide) (.cons (by decide) rfl (by decide) (.nil _)))
      rfl rfl (by decide)
      (.commit rfl (.cons (by decide) rfl (by decide) (.cons (by decide) rfl (by decide) (.nil _)))
        rfl rfl (by decide) (.done _))
  exact ⟨_, _, run,
    recover_simulates_executor rfl rfl (by decide) (by decide) (by decide) (by decide) run⟩

end Runs

end MyDb
