/-
**Rows without an `id` in a transaction.**

An INSERT need not name the column `id`. The records of a row without one carry the empty text as
their key, so to the undo loop they are about the row whose id is the empty text. A table is
therefore taken apart into its named rows, those with an `id`, and its bare ones. `statements_told`:
the records of named rows are their history, as in a table without bare rows; of the bare ones the
log tells at least when they are inserted and deleted. `undoWrite` on a bare record changes a table
only if the empty id is there, and then it may turn the row with it into a bare one.
-/

import MyDatabaseEngine.Txn.History

namespace MyDb

open KeyedList VersionHistory

/-! ### Named and bare rows -/

section Tables

/-- The rows with an id. -/
def named (rows : List Row) : List Row := rows.filter fun row => row.id?.isSome

/-- How many rows have no id. -/
def bareRows (rows : List Row) : Nat := rows.countP fun row => row.id?.isNone

namespace TableStorage

/-- **No id is shared within a table**; rows without one may be there. -/
def UniqueIds (storage : TableStorage) : Prop :=
  ∀ table, ((storage.rows table).filterMap Row.id?).Nodup

instance (storage : TableStorage) : Decidable storage.UniqueIds :=
  decidable_of_iff (∀ e ∈ storage.entries, (e.2.filterMap Row.id?).Nodup)
    (forall_rows_iff (P := fun rows => (rows.filterMap Row.id?).Nodup) List.nodup_nil storage).symm

/-- How many rows of a table have no id. -/
def bare (storage : TableStorage) (table : Str) : Nat := bareRows (storage.rows table)

end TableStorage

variable {rows rows' : List Row} {storage storage' : TableStorage} {table : Str}

theorem keyed_named (unique : (rows.filterMap Row.id?).Nodup) : Keyed Row.id? (named rows) := by
  refine ⟨fun row member => (List.mem_filter.mp member).2, ?_⟩
  have ids : (named rows).map Row.id? = (rows.filterMap Row.id?).map some := by
    unfold named
    induction rows with
    | nil => rfl
    | cons row rest ih =>
      have unique' : (rest.filterMap Row.id?).Nodup :=
        unique.sublist ((List.sublist_cons_self row rest).filterMap _)
      cases hasId : row.id? with
      | none =>
        rw [List.filter_cons_of_neg (by simp [hasId]), List.filterMap_cons_none hasId, ih unique']
      | some key =>
        rw [List.filter_cons_of_pos (by simp [hasId]), List.filterMap_cons_some hasId,
          List.map_cons,
          List.map_cons, hasId, ih unique']
  rw [ids]
  exact unique.map (Option.some_injective _)

theorem lookup_named (rows : List Row) (key : Str) :
    lookup Row.id? (named rows) key = lookup Row.id? rows key := by
  unfold named
  induction rows with
  | nil => rfl
  | cons row rest ih =>
    rw [lookup_cons]
    cases hasId : row.id? with
    | none => rw [List.filter_cons_of_neg (by simp [hasId]), ih, if_neg nofun]
    | some own => rw [List.filter_cons_of_pos (by simp [hasId]), lookup_cons, hasId, ih]

theorem bareRows_eq_zero : bareRows rows = 0 ↔ ∀ row ∈ rows, row.id?.isSome := by
  unfold bareRows
  simp [List.countP_eq_zero, Option.isSome_iff_ne_none]

/-- **A table without bare rows is a keyed one.** -/
theorem keyed_of_bare (unique : (rows.filterMap Row.id?).Nodup) (noneBare : bareRows rows = 0) :
    Keyed Row.id? rows := by
  have all : named rows = rows := List.filter_eq_self.mpr (bareRows_eq_zero.mp noneBare)
  exact all ▸ keyed_named unique

theorem TableStorage.WellKeyed.uniqueIds (keyed : storage.WellKeyed) : storage.UniqueIds := by
  intro table
  have ids : ((storage.rows table).filterMap Row.id?).map some =
      (storage.rows table).map Row.id? := by
    rw [List.map_filterMap]
    exact List.filterMap_eq_map_iff_forall_eq_some.mpr fun row member => by
      obtain ⟨key, hasId⟩ := Option.isSome_iff_exists.mp ((keyed table).isSome row member)
      rw [hasId]
      rfl
  exact .of_map _ (ids ▸ (keyed table).nodup)

end Tables

/-! ### Records -/

namespace WriteRecord

/-- The row a record is about. -/
def row (wr : WriteRecord) : Row :=
  match wr.type with
  | .insert => wr.newRow
  | _ => wr.oldRow

/-- The record is about a row without an id. -/
def Bare (wr : WriteRecord) : Prop := wr.row.id? = none

instance : DecidablePred Bare := fun _ => inferInstanceAs (Decidable (_ = none))

/-- A DELETE of a row without an id. -/
def DropsBare (table : Str) (wr : WriteRecord) : Prop :=
  wr.table = table ∧ wr.type = .delete ∧ wr.Bare

end WriteRecord

/-- The records about rows with an id. -/
def namedWrites (log : List WriteRecord) : List WriteRecord := log.filter fun wr => ¬ wr.Bare

/-- **What a log tells of a table's rows**: the history of those with an id; and rows without one
are gone only if the log deletes one. -/
structure Told (before after : TableStorage) (log : List WriteRecord) : Prop where
  runs : ∀ table key,
    Runs (changesOn table key (namedWrites log)) (before.rowAt table key) (after.rowAt table key)
  hasKey : ∀ wr ∈ log, ¬ wr.Bare → wr.HasKey
  bareKey : ∀ wr ∈ log, wr.Bare → wr.key = []
  stay : ∀ table, (∀ wr ∈ log, ¬ wr.DropsBare table) → before.bare table ≤ after.bare table
  inserted : ∀ earlier wr later, log = earlier ++ wr :: later → wr.type = .insert → wr.Bare →
    (∀ w ∈ later, ¬ w.DropsBare wr.table) → 0 < after.bare wr.table

theorem Told.refl (storage : TableStorage) : Told storage storage [] :=
  ⟨fun _ _ => .nil _, nofun, nofun, fun _ _ => le_rfl,
    fun earlier wr later split => by simp at split⟩

theorem Told.trans {before middle after : TableStorage} {log log' : List WriteRecord}
    (first : Told before middle log) (next : Told middle after log') :
    Told before after (log ++ log') := by
  refine ⟨fun table key => ?_, List.forall_mem_append.mpr ⟨first.hasKey, next.hasKey⟩,
    List.forall_mem_append.mpr ⟨first.bareKey, next.bareKey⟩, fun table none => ?_, ?_⟩
  · unfold namedWrites
    rw [List.filter_append, changesOn_append]
    exact (first.runs table key).append (next.runs table key)
  · obtain ⟨here, later⟩ := List.forall_mem_append.mp none
    exact (first.stay table here).trans (next.stay table later)
  · intro earlier wr later split isInsert isBare none
    rcases List.append_eq_append_iff.mp split with ⟨more, rfl, rest⟩ | ⟨more, rfl, rest⟩
    · exact next.inserted more wr later rest isInsert isBare none
    · cases more with
      | nil => exact next.inserted [] wr later rest.symm isInsert isBare none
      | cons w more =>
        obtain ⟨rfl, rfl⟩ := List.cons.inj rest
        obtain ⟨here, after⟩ := List.forall_mem_append.mp none
        exact (first.inserted earlier wr more rfl isInsert isBare here).trans_le (next.stay _ after)

/-! ### Statements -/

section Statements

variable {storage : TableStorage} {table : Str} {rows' : List Row} {log : List WriteRecord}

/-- The history of the named rows is that of a table without the others. -/
theorem runs_of_named
    (effect : Effect (storage.setRows table (named (storage.rows table)))
      ((storage.setRows table (named (storage.rows table))).setRows table (named rows')) log)
    (other key : Str) :
    Runs (changesOn other key log) (storage.rowAt other key)
      ((storage.setRows table rows').rowAt other key) := by
  have runs := effect.runs other key
  simp only [TableStorage.rowAt_setRows, lookup_named] at runs ⊢
  by_cases same : other = table
  · subst same
    simpa only [if_true, TableStorage.rowAt] using runs
  · simpa only [if_neg same] using runs

theorem bare_setRows (storage : TableStorage) (table other : Str) (rows : List Row) :
    (storage.setRows table rows).bare other =
      if other = table then bareRows rows else storage.bare other := by
  unfold TableStorage.bare
  rw [TableStorage.rows_setRows]
  split <;> rfl

/-- A change of one table, told by its log. -/
theorem told_setRows
    (runs : Effect (storage.setRows table (named (storage.rows table)))
      ((storage.setRows table (named (storage.rows table))).setRows table (named rows'))
      (namedWrites log))
    (bareKey : ∀ wr ∈ log, wr.Bare → wr.key = [])
    (stay : (∀ wr ∈ log, ¬ wr.DropsBare table) → bareRows (storage.rows table) ≤ bareRows rows')
    (inserted : ∀ wr ∈ log, wr.type = .insert → wr.Bare → wr.table = table ∧ 0 < bareRows rows') :
    Told storage (storage.setRows table rows') log := by
  refine ⟨runs_of_named runs, fun wr member isNamed => ?_, bareKey, fun other none => ?_, ?_⟩
  · exact runs.hasKey wr (List.mem_filter.mpr ⟨member, decide_eq_true isNamed⟩)
  · rw [bare_setRows]
    split
    · rename_i same
      subst same
      exact stay none
    · exact le_rfl
  · intro earlier wr later split isInsert isBare _
    obtain ⟨same, some⟩ :=
      inserted wr (split ▸ List.mem_append_right _ List.mem_cons_self) isInsert isBare
    rw [bare_setRows, if_pos same]
    exact some

theorem recordKey_of_bare {row : Row} (noId : row.id? = none) : recordKey row = [] := by
  rw [recordKey, noId]
  rfl

theorem named_append (rows rows' : List Row) : named (rows ++ rows') = named rows ++ named rows' :=
  List.filter_append ..

theorem told_insert {row : Row} (unique : ((storage.rows table ++ [row]).filterMap Row.id?).Nodup) :
    Told storage (storage.setRows table (storage.rows table ++ [row]))
      [insertRecord table row] := by
  have keyed := keyed_named unique
  have about : (insertRecord table row).row = row := rfl
  have more : bareRows (storage.rows table ++ [row]) =
      bareRows (storage.rows table) + bareRows [row] := List.countP_append
  refine told_setRows ?_ (fun wr member isBare => ?_) (fun _ => ?_) (fun wr member _ isBare => ?_)
  · rw [named_append] at keyed ⊢
    cases hasId : row.id? with
    | none =>
      have gone : named [row] = [] := List.filter_cons_of_neg (by simp [hasId])
      have unlogged : namedWrites [insertRecord table row] = [] :=
        List.filter_cons_of_neg (by simp [WriteRecord.Bare, about, hasId])
      rw [gone, unlogged, List.append_nil]
      refine effect_setRows nofun (fun key => ?_) nofun nofun nofun
      rw [TableStorage.rowAt_setRows, if_pos rfl]
      exact .nil _
    | some key =>
      have there : named [row] = [row] := List.filter_cons_of_pos (by simp [hasId])
      have logged : namedWrites [insertRecord table row] = [insertRecord table row] :=
        List.filter_cons_of_pos (by simp [WriteRecord.Bare, about, hasId])
      rw [there] at keyed ⊢
      rw [logged]
      have effect := @effect_insert (storage.setRows table (named (storage.rows table))) table row
      rw [TableStorage.rows_setRows_self] at effect
      exact effect keyed
  · rw [List.mem_singleton.mp member] at isBare ⊢
    exact recordKey_of_bare isBare
  · exact more ▸ Nat.le_add_right _ _
  · rw [List.mem_singleton.mp member] at isBare ⊢
    have one : bareRows [row] = 1 :=
      List.countP_cons_of_pos (by simpa [WriteRecord.Bare, about] using isBare)
    exact ⟨rfl, by omega⟩

/-- The records of some of a table's rows, those of its named rows. -/
theorem namedWrites_map {record : Row → WriteRecord} (about : ∀ row, (record row).row = row)
    (rows : List Row) (p : Row → Bool) :
    namedWrites ((rows.filter p).map record) = ((named rows).filter p).map record := by
  unfold namedWrites named
  rw [List.filter_map, List.filter_filter, List.filter_filter]
  congr 1
  refine List.filter_congr fun row _ => ?_
  cases hasId : row.id? <;> simp [WriteRecord.Bare, about, hasId]

theorem told_update {stmt : UpdateStatement} (keepsId : idColumn ∉ stmt.assignments.map Prod.fst)
    (unique : ((storage.rows stmt.table).filterMap Row.id?).Nodup) :
    Told storage (storage.setRows stmt.table ((storage.rows stmt.table).map (updatedRow stmt)))
      (updateLog stmt (storage.rows stmt.table)) := by
  have sameId : ∀ row, (updatedRow stmt row).id? = row.id? := by
    intro row
    unfold updatedRow
    split
    · exact id_applyAssignments keepsId row
    · rfl
  have logged : namedWrites (updateLog stmt (storage.rows stmt.table)) =
      updateLog stmt (named (storage.rows stmt.table)) := namedWrites_map (fun _ => rfl) _ _
  have rows : named ((storage.rows stmt.table).map (updatedRow stmt)) =
      (named (storage.rows stmt.table)).map (updatedRow stmt) := by
    unfold named
    rw [List.filter_map]
    simp only [Function.comp_def, sameId]
  have records : ∀ wr ∈ updateLog stmt (storage.rows stmt.table), ∃ row,
      wr = updateRecord stmt.table row (applyAssignments stmt.assignments row) := by
    intro wr member
    obtain ⟨row, -, rfl⟩ := List.mem_map.mp member
    exact ⟨row, rfl⟩
  refine told_setRows ?_ (fun wr member isBare => ?_) (fun _ => ?_) (fun wr member isInsert => ?_)
  · have effect :=
      @effect_update (storage.setRows stmt.table (named (storage.rows stmt.table))) stmt keepsId
    rw [TableStorage.rows_setRows_self] at effect
    rw [logged, rows]
    exact effect (keyed_named unique)
  · obtain ⟨row, rfl⟩ := records wr member
    exact recordKey_of_bare ((id_applyAssignments keepsId row).trans isBare)
  · unfold bareRows
    rw [List.countP_map]
    simp only [Function.comp_def, sameId, le_refl]
  · obtain ⟨row, rfl⟩ := records wr member
    exact nomatch isInsert

theorem told_delete {stmt : DeleteStatement}
    (unique : ((storage.rows stmt.table).filterMap Row.id?).Nodup) :
    Told storage
      (storage.setRows stmt.table
        ((storage.rows stmt.table).filter fun row => !matchesWhere stmt.where? row))
      (deleteLog stmt (storage.rows stmt.table)) := by
  have logged : namedWrites (deleteLog stmt (storage.rows stmt.table)) =
      deleteLog stmt (named (storage.rows stmt.table)) := namedWrites_map (fun _ => rfl) _ _
  have rows : named ((storage.rows stmt.table).filter fun row => !matchesWhere stmt.where? row) =
      (named (storage.rows stmt.table)).filter fun row => !matchesWhere stmt.where? row :=
    List.filter_comm ..
  refine told_setRows ?_ (fun wr member isBare => ?_) (fun none => ?_)
    (fun wr member isInsert => ?_)
  · have effect :=
      @effect_delete (storage.setRows stmt.table (named (storage.rows stmt.table))) stmt
    rw [TableStorage.rows_setRows_self] at effect
    rw [logged, rows]
    exact effect (keyed_named unique)
  · obtain ⟨row, -, rfl⟩ := List.mem_map.mp member
    exact recordKey_of_bare isBare
  · unfold bareRows
    rw [List.countP_filter]
    refine List.countP_mono_left fun row member noId => ?_
    by_cases hit : matchesWhere stmt.where? row = true
    · refine absurd ⟨rfl, rfl, Option.isNone_iff_eq_none.mp noId⟩
        (none (deleteRecord stmt.table row) ?_)
      exact List.mem_map_of_mem (List.mem_filter.mpr ⟨member, hit⟩)
    · simpa [hit] using noId
  · obtain ⟨row, -, rfl⟩ := List.mem_map.mp member
    exact nomatch isInsert

/-- **A statement tells what it did.** -/
theorem executeDml_told {stmt : DmlStatement} {storage' : TableStorage} {txn : Transaction}
    {txn' : Option Transaction} (keepsId : stmt.assignsId = false) (active : txn.active = true)
    (unique : storage.UniqueIds) (unique' : storage'.UniqueIds)
    (done : executeDml stmt storage (some txn) = .ok (storage', txn')) :
    ∃ log, txn' = some (txn.extend log) ∧ Told storage storage' log := by
  cases stmt with
  | insert stmt =>
    simp only [executeDml, executeInsert] at done
    split at done
    · cases done
    · rename_i rows found
      cases built : buildRow stmt.columns stmt.values ∅ with
      | error fault => rw [built] at done; cases done
      | ok row =>
        rw [built] at done
        cases done
        refine ⟨[insertRecord stmt.table row], logIfActive_some active _, ?_⟩
        have atTable := unique' stmt.table
        rw [← TableStorage.rows_of_lookup found] at atTable ⊢
        rw [TableStorage.rows_setRows_self] at atTable
        exact told_insert atTable
  | update stmt =>
    simp only [executeDml, executeUpdate] at done
    split at done
    · cases done
    · rename_i rows found
      rw [updateRows_eq stmt rows txn active] at done
      cases done
      refine ⟨_, rfl, ?_⟩
      rw [← TableStorage.rows_of_lookup found]
      exact told_update (by simpa [DmlStatement.assignsId] using keepsId) (unique stmt.table)
  | delete stmt =>
    simp only [executeDml, executeDelete] at done
    split at done
    · cases done
    · rename_i rows found
      rw [deleteRows_eq stmt rows txn active] at done
      cases done
      refine ⟨_, rfl, ?_⟩
      rw [← TableStorage.rows_of_lookup found]
      exact told_delete (unique stmt.table)

/-- **The statements of a transaction tell what they did.** -/
theorem statements_told {id : TxnId} {s s' : Session} {stmts : List DmlStatement}
    (run : Statements TableStorage.UniqueIds id s stmts s') {txn : Transaction}
    (known : s.manager.get id = .ok txn) (active : txn.active = true)
    (unique : s.storage.UniqueIds) :
    ∃ log, s'.manager.get id = .ok (txn.extend log) ∧ s'.storage.UniqueIds ∧
      Told s.storage s'.storage log := by
  induction run generalizing txn with
  | nil s => exact ⟨[], by rw [known, Transaction.extend_nil], unique, .refl _⟩
  | @cons s s₁ s₂ stmt rest keepsId done unique₁ _ ih =>
    obtain ⟨log, known₁, told⟩ : ∃ log, s₁.manager.get id = .ok (txn.extend log) ∧
        Told s.storage s₁.storage log := by
      unfold Session.exec at done
      rw [known] at done
      simp only [bind, Except.bind] at done
      split at done
      · rename_i storage' txn' ran
        cases done
        obtain ⟨log, rfl, told⟩ := executeDml_told keepsId active unique unique₁ ran
        exact ⟨log, get_eq_ok.mpr (Finmap.lookup_insert _), told⟩
      · cases done
        exact ⟨[], by rw [known, Transaction.extend_nil], .refl _⟩
      · cases done
    obtain ⟨log', known₂, unique₂, told'⟩ := ih known₁ active unique₁
    exact ⟨log ++ log', by rw [known₂]; simp [Transaction.extend], unique₂, told.trans told'⟩

end Statements

/-! ### Undoing -/

section Undo

open TransactionManager (undoWrite restoreFirst)

variable {rows : List Row} {storage storage' : TableStorage} {table key key' : Str}
  {wr : WriteRecord} {log : List WriteRecord} {old : Row}

theorem bareRows_removeKey (key : Str) (rows : List Row) :
    bareRows (removeKey key rows) = bareRows rows := by
  unfold bareRows removeKey
  rw [List.countP_filter]
  refine List.countP_congr fun row _ => ?_
  cases hasId : row.id? <;> simp [hasKey, hasId]

theorem bareRows_restoreFirst (key : Str) (old : Row) (rows : List Row) :
    bareRows (restoreFirst key old rows) =
      bareRows rows + if (lookup Row.id? rows key).isSome ∧ old.id? = none then 1 else 0 := by
  unfold bareRows
  induction rows with
  | nil => rfl
  | cons row rest ih =>
    rw [restoreFirst, lookup_cons, List.countP_cons]
    by_cases same : row.id? = some key
    · rw [if_pos (by simpa [hasKey] using same), List.countP_cons, if_pos same, same]
      simp [Option.isNone_iff_eq_none]
    · rw [if_neg (by simpa [hasKey] using same), List.countP_cons, if_neg same, ih]
      omega

/-- What is put in the place of a row has its id or none. -/
theorem lookup_restoreFirst_none (own : old.id? = none ∨ old.id? = some key)
    (absent : lookup Row.id? rows key' = none) :
    lookup Row.id? (restoreFirst key old rows) key' = none := by
  rw [restoreFirst_eq_replace]
  by_cases same : key = key'
  · rw [same, replace_of_lookup_none absent]
    exact absent
  · refine lookup_eq_none_iff.mpr fun row member => ?_
    rcases mem_replace member with rfl | inside
    · rcases own with noId | hasId
      · rw [noId]
        exact nofun
      · rw [hasId]
        exact fun equal => same (Option.some.inj equal)
    · exact lookup_eq_none_iff.mp absent row inside

/-- A record whose before-image, where undoing uses it, has the record's key or no id. -/
def WriteRecord.Tidy (wr : WriteRecord) : Prop :=
  wr.type ≠ .insert → wr.oldRow.id? = none ∨ wr.oldRow.id? = some wr.key

theorem WriteRecord.row_of_write (write : wr.type ≠ .insert) : wr.row = wr.oldRow := by
  unfold WriteRecord.row
  cases type : wr.type with
  | insert => exact absurd type write
  | update => rfl
  | delete => rfl

theorem Told.tidy {before after : TableStorage} (told : Told before after log) :
    ∀ wr ∈ log, wr.Tidy := by
  intro wr member write
  by_cases isBare : wr.Bare
  · exact .inl (WriteRecord.row_of_write write ▸ isBare)
  · exact .inr ((told.hasKey wr member isBare).oldRow write)

theorem undoRows_of_write (write : wr.type ≠ .insert) (rows : List Row) :
    undoRows wr rows = restoreFirst wr.key wr.oldRow rows := by
  unfold undoRows
  cases type : wr.type with
  | insert => exact absurd type write
  | update => rfl
  | delete => rfl

theorem rowAt_undoWrite (wr : WriteRecord) (storage : TableStorage) (table key : Str) :
    (undoWrite wr storage).rowAt table key =
      if table = wr.table then lookup Row.id? (undoRows wr (storage.rows table)) key
      else storage.rowAt table key := by
  unfold TableStorage.rowAt
  rw [rows_undoWrite]
  split <;> rfl

/-- **Undoing an INSERT** takes away the row with its id. -/
theorem rowAt_undoWrite_insert (isInsert : wr.type = .insert) (storage : TableStorage) :
    (undoWrite wr storage).rowAt wr.table wr.key = none := by
  rw [rowAt_undoWrite, if_pos rfl, undoRows, isInsert]
  dsimp only
  rw [removeKey_eq_erase, lookup_erase, if_pos rfl]

/-- **A row that is not there is not brought back.** -/
theorem rowAt_undoWrite_none (tidy : wr.Tidy) (absent : storage.rowAt table key = none) :
    (undoWrite wr storage).rowAt table key = none := by
  rw [rowAt_undoWrite]
  split
  · by_cases isInsert : wr.type = .insert
    · rw [undoRows, isInsert]
      dsimp only
      rw [removeKey_eq_erase, lookup_erase]
      split
      · rfl
      · exact absent
    · rw [undoRows_of_write isInsert]
      exact lookup_restoreFirst_none (tidy isInsert) absent
  · exact absent

/-- **Undoing makes a bare row** of a named one, or none. -/
theorem bare_undoWrite (wr : WriteRecord) (storage : TableStorage) (table : Str) :
    (undoWrite wr storage).bare table = storage.bare table +
      if table = wr.table ∧ wr.type ≠ .insert ∧ (storage.rowAt table wr.key).isSome ∧
        wr.oldRow.id? = none
      then 1 else 0 := by
  unfold TableStorage.bare
  rw [rows_undoWrite]
  by_cases onTable : table = wr.table
  · rw [if_pos onTable]
    by_cases isInsert : wr.type = .insert
    · rw [if_neg fun all => all.2.1 isInsert, undoRows, isInsert]
      exact bareRows_removeKey _ _
    · rw [undoRows_of_write isInsert, bareRows_restoreFirst]
      refine congrArg _ (if_congr ?_ rfl rfl)
      rw [and_iff_right onTable, and_iff_right isInsert]
      rfl
  · rw [if_neg onTable, if_neg fun all => onTable all.1]
    rfl

/-- A row with the empty id stays, unless an INSERT of it is undone or it becomes a bare row. -/
theorem rowAt_undoWrite_some (tidy : wr.Tidy)
    (noInsert : ¬ (wr.table = table ∧ wr.type = .insert ∧ wr.key = key))
    (noneBare : (undoWrite wr storage).bare table = 0) (there : (storage.rowAt table key).isSome) :
    ((undoWrite wr storage).rowAt table key).isSome := by
  rw [bare_undoWrite] at noneBare
  rw [rowAt_undoWrite]
  by_cases onTable : table = wr.table
  · rw [if_pos onTable]
    by_cases isInsert : wr.type = .insert
    · have other : key ≠ wr.key := fun same => noInsert ⟨onTable.symm, isInsert, same.symm⟩
      rw [undoRows, isInsert]
      dsimp only
      rw [removeKey_eq_erase, lookup_erase, if_neg other]
      exact there
    · rw [undoRows_of_write isInsert, restoreFirst_eq_replace]
      cases found : storage.rowAt table wr.key with
      | none =>
        rw [replace_of_lookup_none found]
        exact there
      | some row =>
        have hasId : wr.oldRow.id? = some wr.key := by
          refine (tidy isInsert).resolve_left fun noId => ?_
          rw [if_pos ⟨onTable, isInsert, by rw [found]; rfl, noId⟩] at noneBare
          omega
        rw [lookup_replace _ hasId]
        split
        · unfold TableStorage.rowAt at found
          rw [found]
          rfl
        · exact there
  · rw [if_neg onTable]
    exact there

/-! The whole loop. -/

theorem rowAt_undoWrites_none (tidy : ∀ wr ∈ log, wr.Tidy)
    (absent : storage.rowAt table key = none) :
    (log.foldr undoWrite storage).rowAt table key = none := by
  induction log with
  | nil => exact absent
  | cons wr log ih =>
    obtain ⟨head, rest⟩ := List.forall_mem_cons.mp tidy
    exact rowAt_undoWrite_none head (ih rest)

theorem rowAt_undoWrites_insert (tidy : ∀ wr ∈ log, wr.Tidy)
    (inserted : ∃ wr ∈ log, wr.table = table ∧ wr.type = .insert ∧ wr.key = key) :
    (log.foldr undoWrite storage).rowAt table key = none := by
  induction log with
  | nil => simp at inserted
  | cons wr log ih =>
    obtain ⟨head, rest⟩ := List.forall_mem_cons.mp tidy
    obtain ⟨w, member, rfl, isInsert, rfl⟩ := inserted
    rcases List.mem_cons.mp member with rfl | later
    · exact rowAt_undoWrite_insert isInsert _
    · exact rowAt_undoWrite_none head (ih rest ⟨w, later, rfl, isInsert, rfl⟩)

theorem bare_le_undoWrites (log : List WriteRecord) (storage : TableStorage) (table : Str) :
    storage.bare table ≤ (log.foldr undoWrite storage).bare table := by
  induction log with
  | nil => exact le_rfl
  | cons wr log ih =>
    rw [List.foldr_cons, bare_undoWrite]
    exact ih.trans (Nat.le_add_right _ _)

theorem rowAt_undoWrites_some (tidy : ∀ wr ∈ log, wr.Tidy)
    (noInsert : ∀ wr ∈ log, ¬ (wr.table = table ∧ wr.type = .insert ∧ wr.key = key))
    (noneBare : (log.foldr undoWrite storage).bare table = 0)
    (there : (storage.rowAt table key).isSome) :
    ((log.foldr undoWrite storage).rowAt table key).isSome := by
  induction log with
  | nil => exact there
  | cons wr log ih =>
    obtain ⟨head, rest⟩ := List.forall_mem_cons.mp tidy
    obtain ⟨notHead, notRest⟩ := List.forall_mem_cons.mp noInsert
    have before : (log.foldr undoWrite storage).bare table = 0 := by
      rw [List.foldr_cons, bare_undoWrite] at noneBare
      omega
    exact rowAt_undoWrite_some head notHead noneBare (ih rest notRest before)

theorem rows_undoWrite_congr (same : ∀ table, storage.rows table = storage'.rows table)
    (wr : WriteRecord) (table : Str) :
    (undoWrite wr storage).rows table = (undoWrite wr storage').rows table := by
  rw [rows_undoWrite, rows_undoWrite, same]

/-- **Where the row with a record's key is not there, undoing the record changes no row.** -/
theorem rows_undoWrite_of_absent (absent : storage.rowAt wr.table wr.key = none) (table : Str) :
    (undoWrite wr storage).rows table = storage.rows table := by
  rw [rows_undoWrite]
  split
  · rename_i onTable
    subst onTable
    by_cases isInsert : wr.type = .insert
    · rw [undoRows, isInsert]
      dsimp only
      rw [removeKey_eq_erase]
      exact erase_of_lookup_none absent
    · rw [undoRows_of_write isInsert, restoreFirst_eq_replace]
      exact replace_of_lookup_none absent
  · rfl

end Undo

end MyDb
