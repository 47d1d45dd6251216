/-
**When rollback restores the storage.**

The transaction runs INSERT, UPDATE and DELETE statements on tables in which an id names a row; it
may insert rows without an id. `rollback_restores_iff`: `rollback` leaves every table with the rows
it had when the transaction began if and only if the transaction is `Undoable`:

* no DELETE removed a row whose id the table held at the start: the undo loop treats a Delete record
  like an Update record, it looks for a row with the key and overwrites it, and a deleted row is not
  there;
* every row without an id that was inserted has been deleted again: the undo loop finds rows by
  their id only, so it takes none of these away;
* no record of such a row, whose key is the empty text, finds a row with the empty id to overwrite.
-/

import MyDatabaseEngine.Txn.BareRows

namespace MyDb

open KeyedList VersionHistory

/-- **The undo loop takes back what this log tells**, from the storage the statements found to the
one they left. -/
structure Undoable (before after : TableStorage) (log : List WriteRecord) : Prop where
  /-- No DELETE removed a row whose id was there. -/
  deletes : ∀ wr ∈ log, wr.type = .delete → before.rowAt wr.table wr.key = none
  /-- All rows have an id. -/
  named : ∀ table, ∀ row ∈ after.rows table, row.id?.isSome
  /-- A row with the empty id was inserted after the last write to a row without an id. -/
  emptyId : ∀ earlier wr later, log = earlier ++ wr :: later → wr.type ≠ .insert →
    wr.oldRow.id? = none →
    (after.rowAt wr.table []).isSome → ∃ w ∈ later, w.table = wr.table ∧
      w.type = .insert ∧ w.key = []

section Rollback

open TransactionManager (undoWrite)

variable {order : RowOrder} {id : TxnId} {before after : TableStorage} {log : List WriteRecord}

/-- **Rollback, row by row**: a row comes back unless it was there and was deleted. -/
theorem rowAt_rollback (logOf : LogOf before after log) (keyed : after.WellKeyed)
    (table key : Str) :
    (log.foldr undoWrite after).rowAt table key =
      if (before.rowAt table key).isSome ∧ ∃ wr ∈ writesOn table key log,
        wr.type = .delete then none
      else before.rowAt table key := by
  rw [(rowAt_undoWrites logOf.hasKey keyed).2, undoAll_runs (logOf.runs table key)]
  simp only [exists_changesOn_iff, WriteRecord.isDelete_change, decide_eq_true_eq]

theorem Told.logOf (told : Told before after log) : LogOf before after (namedWrites log) :=
  ⟨told.runs, fun wr member => told.hasKey wr (List.mem_filter.mp member).1
    (of_decide_eq_true (List.mem_filter.mp member).2)⟩

theorem Told.tidy_behind (told : Told before after log) {earlier later : List WriteRecord}
    {wr : WriteRecord} (split : log = earlier ++ wr :: later) : ∀ w ∈ later, w.Tidy :=
  fun w member =>
    told.tidy w (split ▸ List.mem_append_right _ (List.mem_cons_of_mem _ member))

/-- **In an undoable log the records of rows without an id do nothing.** -/
theorem Undoable.absent (undoable : Undoable before after log) (told : Told before after log)
    {earlier later : List WriteRecord} {wr : WriteRecord} (split : log = earlier ++ wr :: later)
    (isBare : wr.Bare) : (later.foldr undoWrite after).rowAt wr.table [] = none := by
  have tidy := told.tidy_behind split
  cases there : after.rowAt wr.table [] with
  | none => exact rowAt_undoWrites_none tidy there
  | some row =>
    have isThere : (after.rowAt wr.table []).isSome := Option.isSome_of_eq_some there
    refine rowAt_undoWrites_insert tidy ?_
    by_cases isInsert : wr.type = .insert
    · -- the row was deleted again, and that record comes before an INSERT of the empty id
      have dropped : ∃ w ∈ later, w.DropsBare wr.table := by
        by_contra none
        have some := told.inserted earlier wr later split isInsert isBare fun w member drops =>
          none ⟨w, member, drops⟩
        exact absurd (bareRows_eq_zero.mpr (undoable.named wr.table)) (Nat.ne_of_gt some)
      obtain ⟨w, member, onTable, isDelete, dropsBare⟩ := dropped
      obtain ⟨between, rest, rfl⟩ := List.append_of_mem member
      have write : w.type ≠ .insert := fun same => nomatch isDelete.symm.trans same
      obtain ⟨i, inside, inserts⟩ := undoable.emptyId (earlier ++ wr :: between) w rest
        (by rw [split, List.append_assoc, List.cons_append]) write
        (WriteRecord.row_of_write write ▸ dropsBare) (onTable ▸ isThere)
      exact ⟨i, List.mem_append_right _ (List.mem_cons_of_mem _ inside), onTable ▸ inserts⟩
    · exact undoable.emptyId earlier wr later split isInsert
        (WriteRecord.row_of_write isInsert ▸ isBare) isThere

/-- **An undoable log is undone by the records of the rows with an id.** -/
theorem Undoable.rows_undoWrites (undoable : Undoable before after log)
    (told : Told before after log) (table : Str) :
    (log.foldr undoWrite after).rows table =
      ((namedWrites log).foldr undoWrite after).rows table := by
  suffices ∀ later earlier, log = earlier ++ later → ∀ table,
      (later.foldr undoWrite after).rows table =
        ((namedWrites later).foldr undoWrite after).rows table from this log [] rfl table
  intro later
  induction later with
  | nil => exact fun _ _ _ => rfl
  | cons wr later ih =>
    intro earlier split
    have rest := ih (earlier ++ [wr]) (by rw [split, List.append_assoc]; rfl)
    by_cases isBare : wr.Bare
    · have only : namedWrites (wr :: later) = namedWrites later :=
        List.filter_cons_of_neg (by simpa using isBare)
      have key := told.bareKey wr (split ▸ List.mem_append_right _ List.mem_cons_self) isBare
      intro table
      rw [only, List.foldr_cons, ← rest]
      exact rows_undoWrite_of_absent (key ▸ undoable.absent told split isBare) table
    · have both : namedWrites (wr :: later) = wr :: namedWrites later :=
        List.filter_cons_of_pos (by simpa using isBare)
      intro table
      rw [both]
      exact rows_undoWrite_congr rest wr table

/-- **An undoable log is taken back.** -/
theorem Undoable.restores (undoable : Undoable before after log) (told : Told before after log)
    (keyed : before.WellKeyed) (unique : after.UniqueIds) :
    (log.foldr undoWrite after).SameRows before := by
  have keyed' : after.WellKeyed := fun table =>
    keyed_of_bare (unique table) (bareRows_eq_zero.mpr (undoable.named table))
  have logOf := told.logOf
  have restored : ((namedWrites log).foldr undoWrite after).SameRows before := by
    rw [TableStorage.sameRows_iff (rowAt_undoWrites logOf.hasKey keyed').1 keyed]
    intro table key
    rw [rowAt_rollback logOf keyed', if_neg]
    rintro ⟨present, wr, member, isDelete⟩
    obtain ⟨inLog, rfl, rfl⟩ := mem_writesOn.mp member
    rw [undoable.deletes wr (List.mem_filter.mp inLog).1 isDelete] at present
    cases present
  intro table
  rw [undoable.rows_undoWrites told]
  exact restored table

/-- A log that is taken back leaves no row without an id, at any point of the undo loop. -/
theorem bare_eq_zero_of_restores (keyed : before.WellKeyed)
    (restored : (log.foldr undoWrite after).SameRows before) {earlier later : List WriteRecord}
    (split : log = earlier ++ later) (table : Str) :
    (later.foldr undoWrite after).bare table = 0 := by
  have final : (log.foldr undoWrite after).bare table = 0 :=
    bareRows_eq_zero.mpr fun row member =>
      (keyed table).isSome row ((restored table).mem_iff.mp member)
  rw [split, List.foldr_append] at final
  exact Nat.eq_zero_of_le_zero (final ▸ bare_le_undoWrites earlier _ table)

/-- So no row is overwritten by one without an id: a record that has one finds no row. -/
theorem rowAt_eq_none_of_restores (keyed : before.WellKeyed)
    (restored : (log.foldr undoWrite after).SameRows before) {earlier later : List WriteRecord}
    {wr : WriteRecord} (split : log = earlier ++ wr :: later) (write : wr.type ≠ .insert)
    (noId : wr.oldRow.id? = none) : (later.foldr undoWrite after).rowAt wr.table wr.key = none := by
  have left := bare_eq_zero_of_restores keyed restored split wr.table
  rw [List.foldr_cons, bare_undoWrite] at left
  by_contra there
  rw [if_pos ⟨rfl, write, Option.isSome_iff_ne_none.mpr there, noId⟩] at left
  omega

/-- Behind the DELETE of a row with an id the row's history starts from nothing, so there is none to
overwrite. -/
theorem Told.rowAt_eq_none_of_delete (told : Told before after log)
    {earlier later : List WriteRecord} {wr : WriteRecord} (split : log = earlier ++ wr :: later)
    (isDelete : wr.type = .delete) (named : ¬ wr.Bare) :
    (later.foldr undoWrite after).rowAt wr.table wr.key = none := by
  have tidy := told.tidy_behind split
  have runs := told.runs wr.table wr.key
  have parts : namedWrites log = namedWrites earlier ++ wr :: namedWrites later := by
    unfold namedWrites
    rw [split, List.filter_append, List.filter_cons_of_pos (by simpa using named)]
  rw [parts, changesOn_append, changesOn_cons, if_pos ⟨rfl, rfl⟩] at runs
  obtain ⟨_, -, runs⟩ := runs.split
  have rest := (Runs.head runs).2
  have put : wr.change.put = none := by
    unfold WriteRecord.change
    rw [isDelete]
    rfl
  rw [put] at rest
  cases left : after.rowAt wr.table wr.key with
  | none => exact rowAt_undoWrites_none tidy left
  | some row =>
    rw [left] at rest
    obtain ⟨w, among, isInsert⟩ := exists_changesOn_iff.mp rest.exists_insert
    obtain ⟨inside, onTable, onKey⟩ := mem_writesOn.mp among
    rw [WriteRecord.isInsert_change, decide_eq_true_eq] at isInsert
    exact rowAt_undoWrites_insert tidy
      ⟨w, (List.mem_filter.mp inside).1, onTable, isInsert, onKey⟩

/-- **What is taken back was undoable.** -/
theorem undoable_of_restores (told : Told before after log) (keyed : before.WellKeyed)
    (restored : (log.foldr undoWrite after).SameRows before) : Undoable before after log := by
  refine ⟨fun wr member isDelete => ?_, fun table => bareRows_eq_zero.mp ?_, ?_⟩
  · obtain ⟨earlier, later, split⟩ := List.append_of_mem member
    have write : wr.type ≠ .insert := fun same => nomatch isDelete.symm.trans same
    have gone : (later.foldr undoWrite after).rowAt wr.table wr.key = none := by
      by_cases isBare : wr.Bare
      · exact rowAt_eq_none_of_restores keyed restored split write
          ((congrArg Row.id? (WriteRecord.row_of_write write)).symm.trans isBare)
      · exact told.rowAt_eq_none_of_delete split isDelete isBare
    have final : (log.foldr undoWrite after).rowAt wr.table wr.key = none := by
      rw [split, List.foldr_append, List.foldr_cons]
      exact rowAt_undoWrites_none
        (fun w inside => told.tidy w (split ▸ List.mem_append_left _ inside))
        (rowAt_undoWrite_none (told.tidy wr member) gone)
    have same := ((keyed wr.table).perm (restored wr.table).symm).perm_iff_lookup (keyed wr.table)
    exact (same.mp (restored wr.table) wr.key).symm.trans final
  · exact bare_eq_zero_of_restores keyed restored (List.append_nil log).symm table
  · intro earlier wr later split write noId there
    by_contra none
    have stays := rowAt_undoWrites_some (told.tidy_behind split)
      (fun w member inserts => none ⟨w, member, inserts⟩)
      (bare_eq_zero_of_restores keyed restored
        (split.trans (List.append_assoc earlier [wr] later).symm) wr.table) there
    have isBare : wr.Bare := (congrArg Row.id? (WriteRecord.row_of_write write)).trans noId
    have key := told.bareKey wr (split ▸ List.mem_append_right _ List.mem_cons_self) isBare
    rw [← key, rowAt_eq_none_of_restores keyed restored split write noId] at stays
    cases stays

/-- **When rollback restores the storage**: when its log is undoable. -/
theorem rollback_restores_iff {s s' : Session} {stmts : List DmlStatement}
    (begun : s.manager.get id = .ok { id }) (keyed : s.storage.WellKeyed)
    (run : Statements TableStorage.UniqueIds id s stmts s') :
    ∃ txn s'', s'.manager.get id = .ok txn ∧ s'.rollback order id = .ok s'' ∧
      (s''.storage.SameRows s.storage ↔ Undoable s.storage s'.storage txn.writeLog) := by
  obtain ⟨log, known, unique, told⟩ := statements_told run begun rfl keyed.uniqueIds
  refine ⟨_, _, known, rollback_eq_ok known rfl, ?_⟩
  have writeLog : (Transaction.extend { id } log).writeLog = log := List.nil_append log
  rw [writeLog]
  exact ⟨undoable_of_restores told keyed, fun undoable => undoable.restores told keyed unique⟩

end Rollback

/-! ### A deleted row -/

section Deleted

/-- A table `users` holding these rows, and a manager in which transaction 1 has begun. -/
def usersSession (rows : List Row) : Session where
  manager :=
    { nextId := 2, transactions := (∅ : Finmap fun _ : TxnId => Transaction).insert 1 { id := 1 } }
  storage := (∅ : TableStorage).insert (str "users") rows

/-- `INSERT INTO users (name) VALUES ('Ann')`. -/
def insertNameless : DmlStatement :=
  .insert
    { table := str "users", columns := [str "name"], values := [.literal .string (str "Ann")] }

/-- A row with an id and one without are inserted. -/
theorem rollback_restores_iff_insert : ∃ txn s'' s' s₁,
    (usersSession [idRow "1"]).exec 1 (insertUser "2") = .ok s₁ ∧
      s₁.exec 1 insertNameless = .ok s' ∧
    s'.manager.get 1 = .ok txn ∧ s'.rollback default 1 = .ok s'' ∧
      (s''.storage.SameRows (usersSession [idRow "1"]).storage ↔
        Undoable (usersSession [idRow "1"]).storage s'.storage txn.writeLog) := by
  have run : Statements TableStorage.UniqueIds 1 (usersSession [idRow "1"])
      [insertUser "2", insertNameless] _ :=
    .cons (by decide) rfl (by decide) (.cons (by decide) rfl (by decide) (.nil _))
  obtain ⟨txn, s'', known, done, iff⟩ := rollback_restores_iff rfl (by decide) run
  exact ⟨txn, s'', _, _, rfl, rfl, known, done, iff⟩

/-- **Rollback does not bring back a row the transaction deleted.** -/
theorem rollback_loses_deleted_row :
    ¬ ∀ (order : RowOrder) (id : TxnId) (s s' s'' : Session) (stmts : List DmlStatement),
      s.manager.get id = .ok { id } → s.storage.WellKeyed →
      Statements TableStorage.UniqueIds id s stmts s' → s'.rollback order id = .ok s'' →
      s''.storage.SameRows s.storage := by
  intro claim
  have restored := claim default 1 (usersSession [idRow "1"]) _ _ [deleteUsers] rfl (by decide)
    (.cons (by decide) rfl (by decide) (.nil _)) rfl (str "users")
  exact absurd restored.length_eq (by decide)

end Deleted

end MyDb
