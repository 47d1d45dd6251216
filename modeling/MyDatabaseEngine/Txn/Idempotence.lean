/-
**Recovery a second time.**

On tables whose rows all have an `id`, ids possibly repeated, each step of the redo and undo loops
changes the rows with one id of one table (`ChangesGroup`), so recovery replays and reverts, for
each table and id, the history the log has for it (`groupAt_recoverFrom`). By
`VersionHistory.undoGroup_redoGroup_twice` a second recovery from the same records changes no such
group (`recover_idempotent`).

A group is the list of the rows with an id, in the order of the table. Redoing an UPDATE overwrites
its first row, or makes the group; redoing a DELETE empties it. What a step does to a group depends
on the group only, and two storages whose groups agree hold the same rows (`sameRows_of_groups`).
-/

import MyDatabaseEngine.Txn.Replay
import MyDatabaseEngine.Lib.KeyGroups

namespace MyDb

open KeyedList VersionHistory

namespace TableStorage

/-- Every row has an `id`. -/
def AllIds (storage : TableStorage) : Prop := ∀ table, ∀ row ∈ storage.rows table, row.id?.isSome

/-- The rows of a table with an id, in order. -/
def groupAt (storage : TableStorage) (table key : Str) : List Row :=
  group Row.id? (storage.rows table) key

instance (storage : TableStorage) : Decidable storage.AllIds :=
  decidable_of_iff (∀ e ∈ storage.entries, ∀ row ∈ e.2, row.id?.isSome)
    (forall_rows_iff (P := fun rows => ∀ row ∈ rows, row.id?.isSome) (by simp) storage).symm

/-- Storages whose rows all have ids hold the same rows when every group does. -/
theorem sameRows_of_groups {storage other : TableStorage} (ids : storage.AllIds)
    (ids' : other.AllIds)
    (same : ∀ table key, storage.groupAt table key = other.groupAt table key) :
    storage.SameRows other := fun table =>
  (perm_iff_group (ids table) (ids' table)).mpr fun key => List.Perm.of_eq (same table key)

end TableStorage

/-! ### Steps that change one group -/

section Steps

/-- **A step that changes at most the rows with one id of one table**, by `g`. -/
def ChangesGroup (f : TableStorage → TableStorage) (table key : Str) (g : List Row → List Row) :
    Prop :=
  ∀ storage : TableStorage, storage.AllIds → (f storage).AllIds ∧
    ∀ table' key', (f storage).groupAt table' key' =
      if table = table' ∧ key = key' then g (storage.groupAt table' key')
      else storage.groupAt table' key'

/-- A step on the rows of one table that changes one group there. -/
theorem changesGroup_setRows {f : TableStorage → TableStorage} {table key : Str}
    {g : List Row → List Row}
    (onTable : ∀ storage : TableStorage, storage.AllIds → ∃ rows : List Row,
      f storage = storage.setRows table rows ∧ (∀ row ∈ rows, row.id?.isSome) ∧
      ∀ key', group Row.id? rows key' =
        if key' = key then g (storage.groupAt table key) else storage.groupAt table key') :
    ChangesGroup f table key g := by
  intro storage ids
  obtain ⟨rows, sets, idsRows, groups⟩ := onTable storage ids
  rw [sets]
  refine ⟨fun other => ?_, fun table' key' => ?_⟩
  · rw [TableStorage.rows_setRows]
    split
    · exact idsRows
    · exact ids other
  · unfold TableStorage.groupAt at groups ⊢
    rw [TableStorage.rows_setRows]
    by_cases sameTable : table' = table
    · rw [if_pos sameTable, groups, sameTable]
      by_cases sameKey : key' = key
      · rw [if_pos sameKey, if_pos ⟨rfl, sameKey.symm⟩, sameKey]
      · rw [if_neg sameKey, if_neg fun both => sameKey both.2.symm]
    · rw [if_neg sameTable, if_neg fun both => sameTable both.1.symm]

/-- The rows of a table after its first row with the id was overwritten. -/
theorem ids_replace {rows : List Row} {key : Str} {new : Row} (ids : ∀ row ∈ rows, row.id?.isSome)
    (newId : new.id? = some key) : ∀ row ∈ replace Row.id? key new rows, row.id?.isSome := by
  intro row member
  rcases mem_replace member with rfl | old
  · rw [newId]
    rfl
  · exact ids row old

theorem erase_changesGroup {f : TableStorage → TableStorage} {table key : Str}
    (erases : ∀ storage : TableStorage,
      f storage = storage.setRows table (erase Row.id? (storage.rows table) key)) :
    ChangesGroup f table key fun _ => [] := by
  refine changesGroup_setRows fun storage ids =>
    ⟨_, erases storage, fun row member => ?_, fun key' => ?_⟩
  · exact ids table row (List.mem_filter.mp member).1
  · exact group_erase _ key key'

/-- **One step of the redo loop.** -/
theorem redoWrite_changesGroup {wr : WriteRecord} (own : wr.HasKey) :
    ChangesGroup (redoWrite wr) wr.table wr.key wr.change.redoGroup := by
  have found : ∀ storage : TableStorage, (lookup Row.id? (storage.rows wr.table) wr.key) =
      (storage.groupAt wr.table wr.key).head? := fun storage => lookup_eq_head? _ _
  cases type : wr.type with
  | insert =>
    have newId := own.newRow (by simp [type])
    refine changesGroup_setRows fun storage ids =>
      ⟨insertAbsent Row.id? wr.key wr.newRow (storage.rows wr.table), ?_, fun row member => ?_,
        fun key' => ?_⟩
    · simp only [redoWrite, type, any_hasKey, insertAbsent]
    · unfold insertAbsent at member
      split at member
      · exact ids wr.table row member
      · rcases List.mem_append.mp member with old | new
        · exact ids wr.table row old
        · rw [List.mem_singleton.mp new, newId]
          rfl
    · unfold insertAbsent
      rw [found]
      cases there : storage.groupAt wr.table wr.key with
      | nil =>
        rw [if_neg (by simp), group_concat newId, WriteRecord.change, type]
        show (if key' = wr.key then storage.groupAt wr.table wr.key ++ _ else _) = _
        rw [there]
        rfl
      | cons first rest =>
        rw [if_pos (by simp), WriteRecord.change, type]
        by_cases same : key' = wr.key
        · rw [if_pos same, same]
          exact there
        · rw [if_neg same]
          rfl
  | update =>
    have newId := own.newRow (by simp [type])
    refine changesGroup_setRows fun storage ids =>
      ⟨upsert Row.id? wr.key wr.newRow (storage.rows wr.table), ?_, fun row member => ?_,
        fun key' => ?_⟩
    · have search := overwriteFirst_eq (ids wr.table) wr.key wr.newRow
      simp only [redoWrite, type, search, upsert]
      split
      · rfl
      · rename_i absent
        rw [replace_of_lookup_none (by simpa using absent)]
    · unfold upsert at member
      split at member
      · exact ids_replace (ids wr.table) newId row member
      · rcases List.mem_append.mp member with old | new
        · exact ids wr.table row old
        · rw [List.mem_singleton.mp new, newId]
          rfl
    · unfold upsert
      rw [found]
      cases there : storage.groupAt wr.table wr.key with
      | nil =>
        rw [if_neg (by simp), group_concat newId, WriteRecord.change, type]
        show (if key' = wr.key then storage.groupAt wr.table wr.key ++ _ else _) = _
        rw [there]
        rfl
      | cons first rest =>
        rw [if_pos (by simp), group_replace newId, WriteRecord.change, type]
        show (if key' = wr.key then setFirst wr.newRow (storage.groupAt wr.table wr.key) else _) = _
        rw [there]
        rfl
  | delete =>
    have gone : wr.change.redoGroup = fun _ => [] := by
      funext entries
      rw [WriteRecord.change, type]
      rfl
    rw [gone]
    exact erase_changesGroup fun storage => by simp only [redoWrite, type, removeKey_eq_erase]

/-- **One step of the undo loop.** -/
theorem revertWrite_changesGroup {wr : WriteRecord} (own : wr.HasKey) :
    ChangesGroup (revertWrite wr) wr.table wr.key wr.change.undoGroup := by
  have overwrites : wr.type ≠ .insert → wr.change.undoGroup = setFirst wr.oldRow →
      ChangesGroup (revertWrite wr) wr.table wr.key wr.change.undoGroup := by
    intro notInsert undo
    have oldId := own.oldRow notInsert
    rw [undo]
    refine changesGroup_setRows fun storage ids =>
      ⟨replace Row.id? wr.key wr.oldRow (storage.rows wr.table), ?_,
        ids_replace (ids wr.table) oldId, fun key' => group_replace oldId _ key'⟩
    have search := overwriteFirst_eq (ids wr.table) wr.key wr.oldRow
    cases type : wr.type with
    | insert => exact absurd type notInsert
    | update => simp only [revertWrite, type, search]
    | delete => simp only [revertWrite, type, search]
  cases type : wr.type with
  | insert =>
    have gone : wr.change.undoGroup = fun _ => [] := by
      funext entries
      rw [WriteRecord.change, type]
      rfl
    rw [gone]
    exact erase_changesGroup fun storage => by simp only [revertWrite, type, removeKey_eq_erase]
  | update =>
    refine overwrites (by simp [type]) ?_
    funext entries
    rw [WriteRecord.change, type]
    rfl
  | delete =>
    refine overwrites (by simp [type]) ?_
    funext entries
    rw [WriteRecord.change, type]
    rfl

end Steps

/-! ### The two loops -/

section Loops

variable {log : List WriteRecord}

theorem groupAt_redoWrites (own : ∀ wr ∈ log, wr.HasKey) :
    ∀ {storage : TableStorage}, storage.AllIds →
      (log.foldl (fun storage wr => redoWrite wr storage) storage).AllIds ∧ ∀ table key,
        (log.foldl (fun storage wr => redoWrite wr storage) storage).groupAt table key =
          redoGroup (changesOn table key log) (storage.groupAt table key) := by
  induction log with
  | nil => exact fun ids => ⟨ids, fun _ _ => rfl⟩
  | cons wr rest ih =>
    intro storage ids
    obtain ⟨idsHead, head⟩ := redoWrite_changesGroup (own wr List.mem_cons_self) storage ids
    obtain ⟨idsAll, all⟩ := ih (fun w member => own w (List.mem_cons_of_mem _ member)) idsHead
    refine ⟨idsAll, fun table key => ?_⟩
    rw [List.foldl_cons, all, head, changesOn_cons]
    split <;> rfl

theorem groupAt_revertWrites (own : ∀ wr ∈ log, wr.HasKey) {storage : TableStorage}
    (ids : storage.AllIds) :
    (log.foldr revertWrite storage).AllIds ∧ ∀ table key,
      (log.foldr revertWrite storage).groupAt table key =
        undoGroup (changesOn table key log) (storage.groupAt table key) := by
  induction log with
  | nil => exact ⟨ids, fun _ _ => rfl⟩
  | cons wr rest ih =>
    obtain ⟨idsRest, later⟩ := ih fun w member => own w (List.mem_cons_of_mem _ member)
    obtain ⟨idsAll, all⟩ := revertWrite_changesGroup (own wr List.mem_cons_self) _ idsRest
    refine ⟨idsAll, fun table key => ?_⟩
    rw [List.foldr_cons, all, later, changesOn_cons]
    split <;> rfl

/-- **Recovery, group by group.** -/
theorem groupAt_recoverFrom (records : List LogRecord)
    (own : ∀ rec ∈ records, ∀ wr, rec.write? = some wr → wr.HasKey) {storage : TableStorage}
    (ids : storage.AllIds) :
    (recoverFrom records storage).AllIds ∧ ∀ table key,
      (recoverFrom records storage).groupAt table key =
        undoGroup (changesOn table key (writesWhere (· ∉ committedIds records) records))
          (redoGroup (changesOn table key (writesWhere (· ∈ committedIds records) records))
            (storage.groupAt table key)) := by
  have ownWhere : ∀ (p : TxnId → Prop) [DecidablePred p], ∀ wr ∈ writesWhere p records,
      wr.HasKey := by
    intro p _ wr member
    obtain ⟨rec, inside, decodes⟩ := List.mem_filterMap.mp member
    exact own rec (List.mem_filter.mp inside).1 wr decodes
  obtain ⟨idsRedone, redone⟩ := groupAt_redoWrites (ownWhere (· ∈ committedIds records)) ids
  obtain ⟨idsAll, undone⟩ := groupAt_revertWrites (ownWhere (· ∉ committedIds records)) idsRedone
  rw [recoverFrom_eq_writes]
  refine ⟨idsAll, fun table key => ?_⟩
  rw [undone, redone]

end Loops

/-! ### Twice -/

section Twice

/-- **The images of a data record are rows with its key**: an after-image for an insert or update, a
before-image for an update or delete, and whichever image is not empty. -/
structure LogRecord.KeyedImages (rec : LogRecord) : Prop where
  after : rec.newValue ≠ [] → (deserializeRow rec.newValue).id? = some rec.key
  before : rec.oldValue ≠ [] → (deserializeRow rec.oldValue).id? = some rec.key
  hasAfter : rec.type = .insert ∨ rec.type = .update → rec.newValue ≠ []
  hasBefore : rec.type = .update ∨ rec.type = .delete → rec.oldValue ≠ []

theorem hasKey_of_keyedImages {rec : LogRecord} (images : rec.IsData → rec.KeyedImages)
    {wr : WriteRecord} (decodes : rec.write? = some wr) : wr.HasKey := by
  have keyed := images (by rw [LogRecord.IsData, decodes]; rfl)
  cases type : rec.type <;> simp only [LogRecord.write?, type, Option.some.injEq,
    reduceCtorEq] at decodes
  all_goals subst decodes
  · exact ⟨fun _ => keyed.after (keyed.hasAfter (Or.inr type)),
      fun _ => keyed.before (keyed.hasBefore (Or.inl type))⟩
  · exact ⟨fun _ => keyed.after (keyed.hasAfter (Or.inl type)), fun other => absurd rfl other⟩
  · exact ⟨fun other => absurd rfl other, fun _ => keyed.before (keyed.hasBefore (Or.inr type))⟩

/-- **Recovery is idempotent.** A second recovery from the same records leaves every table with the
rows the first left. -/
theorem recover_idempotent {records : List LogRecord} {storage : TableStorage}
    (ids : storage.AllIds) (images : ∀ rec ∈ records, rec.IsData → rec.KeyedImages) :
    (recoverFrom records (recoverFrom records storage)).SameRows (recoverFrom records storage) := by
  have own : ∀ rec ∈ records, ∀ wr, rec.write? = some wr → wr.HasKey := fun rec member wr decodes =>
    hasKey_of_keyedImages (images rec member) decodes
  obtain ⟨idsOnce, once⟩ := groupAt_recoverFrom records own ids
  obtain ⟨idsTwice, twice⟩ := groupAt_recoverFrom records own idsOnce
  refine TableStorage.sameRows_of_groups idsTwice idsOnce fun table key => ?_
  rw [twice, once]
  exact undoGroup_redoGroup_twice _ _ _

/-- A row inserted by a transaction that never committed, in a table that holds its id twice. -/
def unfinishedInsert : List LogRecord :=
  [{ txnId := 1, type := .begin },
    { txnId := 1, type := .insert, table := str "users", key := str "1", newValue := str "id=1;" }]

theorem recover_idempotent_repeated :
    (recoverFrom unfinishedInsert (recoverFrom unfinishedInsert
      ((∅ : TableStorage).insert (str "users") [idRow "1", idRow "1", idRow "2"]))).SameRows
    (recoverFrom unfinishedInsert
      ((∅ : TableStorage).insert (str "users") [idRow "1", idRow "1", idRow "2"])) := by
  refine recover_idempotent (by decide) ?_
  intro rec member
  rcases List.mem_cons.mp member with rfl | member
  · exact fun isData => absurd isData (by decide)
  · rw [List.mem_singleton.mp member]
    exact fun _ => ⟨fun _ => by decide, fun some => absurd rfl some, fun _ => by decide,
      fun other => by simp at other⟩

end Twice

end MyDb
