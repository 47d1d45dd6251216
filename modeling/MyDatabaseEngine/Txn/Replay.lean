/-
**Recovery, one row at a time.**

A data record of the log decodes to a write record (`LogRecord.write?`): the write it was made from,
with both rows read back from their text (`write?_dataRecord`), which is that write when the texts
are faithful. `rowAt_recoverFrom`: on well-keyed tables, recovery redoes the history of the
committed transactions' records on a row and then undoes that of all others. Both loops act on one
table and id at a time, so this holds of every log whose records are about rows with their own key.
-/

import MyDatabaseEngine.Txn.History

namespace MyDb

open KeyedList VersionHistory

/-! ### Records and writes -/

section Decoding

/-- The write a data record is about. -/
def LogRecord.write? (rec : LogRecord) : Option WriteRecord :=
  let decoded (type : WriteType) : WriteRecord :=
    { type, table := rec.table, key := rec.key
      oldRow := deserializeRow rec.oldValue, newRow := deserializeRow rec.newValue }
  match rec.type with
  | .insert => some (decoded .insert)
  | .update => some (decoded .update)
  | .delete => some (decoded .delete)
  | _ => none

/-- A data record: one that recovery redoes or undoes. -/
def LogRecord.IsData (rec : LogRecord) : Prop := rec.write?.isSome

instance (rec : LogRecord) : Decidable rec.IsData := inferInstanceAs (Decidable (_ = true))

theorem LogRecord.isData_of_type {rec : LogRecord}
    (type : rec.type = .insert ∨ rec.type = .update ∨ rec.type = .delete) : rec.IsData := by
  unfold LogRecord.IsData LogRecord.write?
  rcases type with type | type | type <;> simp [type]

/-- A write as its log record tells it: both rows are read from their text. -/
def WriteRecord.readBack (order : RowOrder) (wr : WriteRecord) : WriteRecord :=
  { wr with
    oldRow := deserializeRow (serializeRow order wr.oldRow)
    newRow := deserializeRow (serializeRow order wr.newRow) }

/-- **What a data record decodes to.** -/
theorem write?_dataRecord (order : RowOrder) (id : TxnId) (wr : WriteRecord) :
    (TransactionManager.dataRecord order id wr).write? = some (wr.readBack order) := by
  obtain ⟨type, table, key, oldRow, newRow⟩ := wr
  cases type <;> rfl

/-- A write whose rows have faithful texts is read back. -/
theorem readBack_of_faithful (order : RowOrder) {wr : WriteRecord} (faithful : wr.FaithfulImages) :
    wr.readBack order = wr := by
  unfold WriteRecord.readBack
  rw [deserializeRow_serializeRow order faithful.1, deserializeRow_serializeRow order faithful.2]

/-- The writes of the records whose transaction satisfies `p`, in log order. -/
def writesWhere (p : TxnId → Prop) [DecidablePred p] (records : List LogRecord) :
    List WriteRecord :=
  (records.filter fun rec => p rec.txnId).filterMap LogRecord.write?

variable {p : TxnId → Prop} [DecidablePred p]

theorem writesWhere_append (records records' : List LogRecord) :
    writesWhere p (records ++ records') = writesWhere p records ++ writesWhere p records' := by
  simp [writesWhere]

theorem writesWhere_cons (rec : LogRecord) (records : List LogRecord) :
    writesWhere p (rec :: records) =
      (if p rec.txnId then rec.write?.toList else []) ++ writesWhere p records := by
  unfold writesWhere
  by_cases holds : p rec.txnId
  · rw [List.filter_cons_of_pos (by simpa using holds), if_pos holds, List.filterMap_cons]
    cases rec.write? <;> rfl
  · rw [List.filter_cons_of_neg (by simpa using holds), if_neg holds, List.nil_append]

/-- A loop over the log that acts on each record as on its write. -/
theorem foldl_writesWhere {step : LogRecord → TableStorage → TableStorage}
    {f : WriteRecord → TableStorage → TableStorage}
    (decodes : ∀ rec storage, step rec storage = rec.write?.elim storage fun wr => f wr storage)
    (records : List LogRecord) (storage : TableStorage) :
    records.foldl (fun storage rec => if p rec.txnId then step rec storage else storage) storage =
      (writesWhere p records).foldl (fun storage wr => f wr storage) storage := by
  induction records generalizing storage with
  | nil => rfl
  | cons rec rest ih =>
    rw [List.foldl_cons, writesWhere_cons, List.foldl_append, ih, decodes]
    by_cases holds : p rec.txnId
    · rw [if_pos holds, if_pos holds]
      cases rec.write? <;> rfl
    · rw [if_neg holds, if_neg holds]
      rfl

theorem foldr_writesWhere {step : LogRecord → TableStorage → TableStorage}
    {f : WriteRecord → TableStorage → TableStorage}
    (decodes : ∀ rec storage, step rec storage = rec.write?.elim storage fun wr => f wr storage)
    (records : List LogRecord) (storage : TableStorage) :
    records.foldr (fun rec storage => if p rec.txnId then step rec storage else storage) storage =
      (writesWhere p records).foldr f storage := by
  induction records with
  | nil => rfl
  | cons rec rest ih =>
    rw [List.foldr_cons, writesWhere_cons, List.foldr_append, ih, decodes]
    by_cases holds : p rec.txnId
    · rw [if_pos holds, if_pos holds]
      cases rec.write? <;> rfl
    · rw [if_neg holds, if_neg holds]
      rfl

end Decoding

/-! ### Redo and undo as steps on one row -/

section Steps

theorem touchId_of_id {row : Row} (hasId : row.id?.isSome) : touchId row = row := by
  obtain ⟨key, found⟩ := Option.isSome_iff_exists.mp hasId
  unfold touchId
  rw [found]

/-- The search through `row["id"]`, on rows that all have an `id`. -/
theorem overwriteFirst_eq {rows : List Row} (hasIds : ∀ row ∈ rows, row.id?.isSome) (key : Str)
    (newRow : Row) :
    overwriteFirst key newRow rows =
      (replace Row.id? key newRow rows, (lookup Row.id? rows key).isSome) := by
  induction rows with
  | nil => rfl
  | cons row rest ih =>
    rw [overwriteFirst, touchId_of_id (hasIds row List.mem_cons_self),
      ih fun r member => hasIds r (List.mem_cons_of_mem _ member), replace, lookup_cons, hasKey]
    by_cases same : row.id? = some key
    · simp [same]
    · simp [same]

theorem any_hasKey (key : Str) (rows : List Row) :
    rows.any (hasKey key) = (lookup Row.id? rows key).isSome := by
  rw [Bool.eq_iff_iff, List.any_eq_true]
  simp [lookup, hasKey]

/-- What the redo loop does with a write. -/
def redoWrite (wr : WriteRecord) (storage : TableStorage) : TableStorage :=
  let rows := storage.rows wr.table
  match wr.type with
  | .insert =>
    storage.setRows wr.table (if rows.any (hasKey wr.key) then rows else rows ++ [wr.newRow])
  | .update =>
    let (rows', found) := overwriteFirst wr.key wr.newRow rows
    storage.setRows wr.table (if found then rows' else rows' ++ [wr.newRow])
  | .delete => storage.setRows wr.table (removeKey wr.key rows)

/-- What the undo loop does with a write. -/
def revertWrite (wr : WriteRecord) (storage : TableStorage) : TableStorage :=
  let rows := storage.rows wr.table
  match wr.type with
  | .insert => storage.setRows wr.table (removeKey wr.key rows)
  | .update | .delete => storage.setRows wr.table (overwriteFirst wr.key wr.oldRow rows).1

theorem redoRecord_eq (rec : LogRecord) (storage : TableStorage) :
    redoRecord rec storage = rec.write?.elim storage fun wr => redoWrite wr storage := by
  cases type : rec.type <;> simp [redoRecord, redoWrite, LogRecord.write?, type]

theorem undoRecord_eq (rec : LogRecord) (storage : TableStorage) :
    undoRecord rec storage = rec.write?.elim storage fun wr => revertWrite wr storage := by
  cases type : rec.type <;> simp [undoRecord, revertWrite, LogRecord.write?, type]

/-- A step that is one list operation on well-keyed tables. -/
theorem actsAt_of_eq {f f' : TableStorage → TableStorage} {table key : Str}
    {g : Option Row → Option Row} (acts : ActsAt f table key g)
    (same : ∀ storage : TableStorage, storage.WellKeyed → f' storage = f storage) :
    ActsAt f' table key g := by
  intro storage keyed
  rw [same storage keyed]
  exact acts storage keyed

/-- Redo of an update, on a table in which an id names a row. -/
theorem redoWrite_update {wr : WriteRecord} (type : wr.type = .update) {storage : TableStorage}
    (keyed : Keyed Row.id? (storage.rows wr.table)) :
    redoWrite wr storage =
      storage.setRows wr.table (upsert Row.id? wr.key wr.newRow (storage.rows wr.table)) := by
  have search := overwriteFirst_eq keyed.isSome wr.key wr.newRow
  simp only [redoWrite, type, search, upsert]
  split
  · rfl
  · rename_i absent
    rw [replace_of_lookup_none (by simpa using absent)]

/-- **One step of the redo loop** replays its write on the row it is about. -/
theorem redoWrite_acts {wr : WriteRecord} (own : wr.HasKey) :
    ActsAt (redoWrite wr) wr.table wr.key wr.change.redo := by
  cases type : wr.type with
  | insert =>
    have hasId := own.newRow (by simp [type])
    refine actsAt_setRows (insertAbsent Row.id? wr.key wr.newRow) (fun storage => ?_)
      (fun rows keyed => keyed_insertAbsent keyed hasId) fun rows _ key' => ?_
    · simp only [redoWrite, type, any_hasKey, insertAbsent]
    · rw [lookup_insertAbsent rows hasId, WriteRecord.change, type]
      rfl
  | update =>
    have hasId := own.newRow (by simp [type])
    refine actsAt_of_eq (actsAt_setRows (upsert Row.id? wr.key wr.newRow) (fun _ => rfl)
      (fun rows keyed => keyed_upsert keyed hasId) fun rows _ key' => ?_) fun storage keyed => ?_
    · rw [lookup_upsert rows hasId, WriteRecord.change, type]
      rfl
    · exact redoWrite_update type (keyed wr.table)
  | delete =>
    refine actsAt_setRows (fun rows => erase Row.id? rows wr.key) (fun storage => ?_)
      (fun rows keyed => keyed_erase keyed _) fun rows _ key' => ?_
    · simp only [redoWrite, type, removeKey_eq_erase]
    · rw [lookup_erase, WriteRecord.change, type]
      rfl

/-- **One step of the undo loop** does what the undo loop of `rollback` does. -/
theorem revertWrite_acts {wr : WriteRecord} (own : wr.HasKey) :
    ActsAt (revertWrite wr) wr.table wr.key wr.change.undo := by
  refine actsAt_of_eq (undoWrite_acts own) fun storage keyed => ?_
  have search := overwriteFirst_eq (keyed wr.table).isSome wr.key wr.oldRow
  cases type : wr.type <;>
    simp [revertWrite, TransactionManager.undoWrite, type, search, restoreFirst_eq_replace]

/-- Recovery redoes the committed transactions' writes, then reverts the others'. -/
theorem recoverFrom_eq_writes (records : List LogRecord) (storage : TableStorage) :
    recoverFrom records storage =
      (writesWhere (· ∉ committedIds records) records).foldr revertWrite
        ((writesWhere (· ∈ committedIds records) records).foldl
          (fun storage wr => redoWrite wr storage) storage) := by
  rw [← foldl_writesWhere redoRecord_eq, ← foldr_writesWhere undoRecord_eq]
  unfold recoverFrom
  simp only [ite_not]

/-- **Recovery, row by row**: the committed transactions' changes of a row are redone, then the
others' changes of it are undone. -/
theorem rowAt_recoverFrom (records : List LogRecord) {storage : TableStorage}
    (keyed : storage.WellKeyed)
    (ownRedo : ∀ wr ∈ writesWhere (· ∈ committedIds records) records, wr.HasKey)
    (ownUndo : ∀ wr ∈ writesWhere (· ∉ committedIds records) records, wr.HasKey) :
    (recoverFrom records storage).WellKeyed ∧ ∀ table key,
      (recoverFrom records storage).rowAt table key =
        undoAll (changesOn table key (writesWhere (· ∉ committedIds records) records))
          (redoAll (changesOn table key (writesWhere (· ∈ committedIds records) records))
            (storage.rowAt table key)) := by
  obtain ⟨keyedRedone, redone⟩ := rowAt_foldl (g := Change.redo)
    (fun wr member => redoWrite_acts (ownRedo wr member)) keyed
  obtain ⟨keyedAll, undone⟩ := rowAt_foldr (g := Change.undo)
    (fun wr member => revertWrite_acts (ownUndo wr member)) keyedRedone
  rw [recoverFrom_eq_writes]
  refine ⟨keyedAll, fun table key => ?_⟩
  rw [undone, redone]
  rfl

end Steps

end MyDb
