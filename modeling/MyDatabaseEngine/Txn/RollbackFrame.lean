/-
**What rollback does to rows the transaction did not write.**

The undo loop finds its rows by table and id alone, and ids need not be unique. `Untouched` rows are
those that no UPDATE of the transaction matched. A row's value tells which they are, so it is enough
to count the rows of each untouched value: the statements only add to them (`Writing.grows`), and a
step of the undo loop takes away those it erases or overwrites (`count_undoWrite_insert`,
`count_undoWrite`).

Which step does so is read off the write log. Undoing an INSERT erases every row with its id.
Undoing an UPDATE overwrites the first row with the new id, so a row is `Sheltered` as long as
another row with its id stands in front of it; `takeBack` follows the ids in front through the log.
Where no UPDATE moves the id, at most one row with it is overwritten, the first one
(`count_undoWrites_of_stay`). `rollback_keeps_untouched_iff` puts the two together.
-/

import Mathlib.Data.List.Perm.Subperm
import MyDatabaseEngine.Txn.Rollback

namespace MyDb

open TransactionManager (undoWrite restoreFirst)

/-- A DELETE. -/
def DmlStatement.deletes : DmlStatement → Bool
  | .delete _ => true
  | _ => false

/-- **INSERT and UPDATE statements under one transaction**, which may also assign `id`. -/
inductive Writing (id : TxnId) : Session → List DmlStatement → Session → Prop
  | nil (s : Session) : Writing id s [] s
  | cons {s s' s'' : Session} {stmt : DmlStatement} {rest : List DmlStatement} :
      stmt.deletes = false → s.exec id stmt = .ok s' → Writing id s' rest s'' →
      Writing id s (stmt :: rest) s''

/-- The statement is an UPDATE of the table that matches the row. -/
def DmlStatement.matchesRow (table : Str) (row : Row) : DmlStatement → Bool
  | .update stmt => stmt.table = table && matchesWhere stmt.where? row
  | _ => false

/-- **No UPDATE matches the row.** -/
def Untouched (stmts : List DmlStatement) (table : Str) (row : Row) : Bool :=
  stmts.all fun stmt => !stmt.matchesRow table row

/-- **Every untouched row is still in its table.** -/
def KeepsUntouched (stmts : List DmlStatement) (before after : TableStorage) : Prop :=
  ∀ table, ((before.rows table).filter (Untouched stmts table)).Subperm (after.rows table)

/-- As often as a row was there, it still is. -/
theorem keepsUntouched_iff_count {stmts : List DmlStatement} {before after : TableStorage} :
    KeepsUntouched stmts before after ↔
      ∀ table, ∀ row ∈ before.rows table, Untouched stmts table row →
        (before.rows table).count row ≤ (after.rows table).count row := by
  unfold KeepsUntouched
  refine forall_congr' fun table => ?_
  rw [List.subperm_ext_iff]
  constructor
  · intro counts row member untouched
    have count := counts row (List.mem_filter.mpr ⟨member, untouched⟩)
    rwa [List.count_filter untouched] at count
  · intro counts row member
    obtain ⟨inside, untouched⟩ := List.mem_filter.mp member
    rw [List.count_filter untouched]
    exact counts row inside untouched

/-! ### The statements -/

/-- How many rows with this value the transaction made. -/
def made (table : Str) (row : Row) (log : List WriteRecord) : Nat :=
  log.countP fun wr => wr.table = table ∧ wr.newRow = row

theorem made_append (table : Str) (row : Row) (log log' : List WriteRecord) :
    made table row (log ++ log') = made table row log + made table row log' := List.countP_append

/-- What a record says about a row that no UPDATE matches. -/
structure Spares (table : Str) (row : Row) (wr : WriteRecord) : Prop where
  notDelete : wr.type ≠ .delete
  key : wr.key = recordKey wr.newRow
  oldRow : wr.type = .update → wr.table = table → wr.oldRow ≠ row

/-- The UPDATE loop, for a row that it does not match. -/
theorem count_updateRows {stmt : UpdateStatement} {row : Row}
    (missed : matchesWhere stmt.where? row = false) (rows : List Row) :
    (rows.map (updatedRow stmt)).count row =
      rows.count row + made stmt.table row (updateLog stmt rows) := by
  unfold made
  induction rows with
  | nil => rfl
  | cons first rest ih =>
    rw [List.map_cons, List.count_cons, List.count_cons, ih]
    by_cases hit : matchesWhere stmt.where? first = true
    · have apart : first ≠ row := fun same => by
        rw [same, missed] at hit
        exact Bool.false_ne_true hit
      have log : updateLog stmt (first :: rest) =
          updateRecord stmt.table first (applyAssignments stmt.assignments first) ::
            updateLog stmt rest := by
        unfold updateLog
        rw [List.filter_cons_of_pos hit, List.map_cons]
      rw [log, List.countP_cons, updatedRow, if_pos hit]
      simp only [beq_iff_eq, apart, if_false, updateRecord, true_and, decide_eq_true_eq]
      omega
    · have log : updateLog stmt (first :: rest) = updateLog stmt rest := by
        unfold updateLog
        rw [List.filter_cons_of_neg hit]
      rw [log, updatedRow, if_neg hit]
      omega

theorem spares_updateLog {stmt : UpdateStatement} {table : Str} {row : Row}
    (missed : DmlStatement.matchesRow table row (.update stmt) = false) (rows : List Row) :
    ∀ wr ∈ updateLog stmt rows, Spares table row wr := by
  intro wr member
  obtain ⟨old, inside, rfl⟩ := List.mem_map.mp member
  refine ⟨nofun, rfl, fun _ onTable same => ?_⟩
  have hit := (List.mem_filter.mp inside).2
  obtain rfl : stmt.table = table := onTable
  obtain rfl : old = row := same
  simp only [DmlStatement.matchesRow, hit, decide_true, Bool.and_true, Bool.true_eq_false] at missed

/-- **What statements do to the rows of a value that no UPDATE matches**: they only add to them. -/
structure Grows (before after : TableStorage) (log : List WriteRecord) (table : Str) (row : Row) :
    Prop where
  count : (after.rows table).count row = (before.rows table).count row + made table row log
  spares : ∀ wr ∈ log, Spares table row wr

theorem Grows.refl (storage : TableStorage) (table : Str) (row : Row) :
    Grows storage storage [] table row := ⟨rfl, nofun⟩

theorem Grows.trans {before middle after : TableStorage} {log log' : List WriteRecord} {table : Str}
    {row : Row} (first : Grows before middle log table row)
    (next : Grows middle after log' table row) :
    Grows before after (log ++ log') table row := by
  refine ⟨?_, List.forall_mem_append.mpr ⟨first.spares, next.spares⟩⟩
  rw [next.count, first.count, made_append, Nat.add_assoc]

/-- A change of one table, told by its log. -/
theorem grows_setRows {storage : TableStorage} {changed table : Str} {row : Row} {rows : List Row}
    {log : List WriteRecord} (onTable : ∀ wr ∈ log, wr.table = changed)
    (count : changed = table →
      rows.count row = (storage.rows changed).count row + made changed row log)
    (spares : ∀ wr ∈ log, Spares table row wr) :
    Grows storage (storage.setRows changed rows) log table row := by
  refine ⟨?_, spares⟩
  rw [TableStorage.rows_setRows]
  by_cases same : table = changed
  · rw [if_pos same, same]
    exact count same.symm
  · have none : made table row log = 0 := by
      refine List.countP_eq_zero.mpr fun wr member => ?_
      rw [decide_eq_true_eq, onTable wr member]
      exact fun both => same both.1.symm
    rw [if_neg same, none, Nat.add_zero]

theorem executeInsert_grows {stmt : InsertStatement} {storage storage' : TableStorage}
    {txn : Transaction} {txn' : Option Transaction} (active : txn.active = true)
    (done : executeInsert stmt storage (some txn) = .ok (storage', txn')) :
    ∃ log, txn' = some (txn.extend log) ∧ ∀ table row, Grows storage storage' log table row := by
  unfold executeInsert at done
  cases found : storage.lookup stmt.table with
  | none =>
    rw [found] at done
    cases done
  | some rows =>
    rw [found] at done
    cases built : buildRow stmt.columns stmt.values ∅ with
    | error fault =>
      rw [built] at done
      cases done
    | ok new =>
      rw [built] at done
      cases done
      refine ⟨[insertRecord stmt.table new], logIfActive_some active _, fun table row => ?_⟩
      refine grows_setRows (by simp [insertRecord]) (fun _ => ?_) ?_
      · rw [TableStorage.rows_of_lookup found, List.count_append]
        unfold made
        rw [List.countP_singleton, List.count_singleton]
        simp only [insertRecord, true_and, beq_iff_eq, decide_eq_true_eq]
      · intro wr member
        rw [List.mem_singleton.mp member]
        exact ⟨WriteType.noConfusion, rfl, WriteType.noConfusion⟩

theorem executeUpdate_grows {stmt : UpdateStatement} {storage storage' : TableStorage}
    {txn : Transaction} {txn' : Option Transaction} (active : txn.active = true)
    (done : executeUpdate stmt storage (some txn) = .ok (storage', txn')) :
    ∃ log, txn' = some (txn.extend log) ∧ ∀ table row,
      DmlStatement.matchesRow table row (.update stmt) = false →
        Grows storage storage' log table row := by
  unfold executeUpdate at done
  cases found : storage.lookup stmt.table with
  | none =>
    rw [found] at done
    cases done
  | some rows =>
    rw [found] at done
    simp only [updateRows_eq stmt rows txn active] at done
    cases done
    refine ⟨updateLog stmt rows, rfl, fun table row missed => ?_⟩
    refine grows_setRows ?_ (fun same => ?_) (spares_updateLog missed rows)
    · intro wr member
      obtain ⟨old, -, rfl⟩ := List.mem_map.mp member
      rfl
    · rw [TableStorage.rows_of_lookup found]
      refine count_updateRows ?_ rows
      simpa [DmlStatement.matchesRow, same] using missed

theorem executeDml_grows {stmt : DmlStatement} {storage storage' : TableStorage} {txn : Transaction}
    {txn' : Option Transaction} (writes : stmt.deletes = false) (active : txn.active = true)
    (done : executeDml stmt storage (some txn) = .ok (storage', txn')) :
    ∃ log, txn' = some (txn.extend log) ∧ ∀ table row, stmt.matchesRow table row = false →
      Grows storage storage' log table row := by
  cases stmt with
  | insert stmt =>
    obtain ⟨log, logged, grows⟩ := executeInsert_grows active done
    exact ⟨log, logged, fun table row _ => grows table row⟩
  | update stmt => exact executeUpdate_grows active done
  | delete stmt => exact nomatch writes

/-- What a statement that writes does to the session. -/
theorem exec_grows {s s' : Session} {id : TxnId} {stmt : DmlStatement} {txn : Transaction}
    (known : s.manager.get id = .ok txn) (active : txn.active = true)
    (writes : stmt.deletes = false) (done : s.exec id stmt = .ok s') :
    ∃ log, s'.manager.get id = .ok (txn.extend log) ∧ ∀ table row,
      stmt.matchesRow table row = false → Grows s.storage s'.storage log table row := by
  unfold Session.exec at done
  rw [known] at done
  simp only [bind, Except.bind] at done
  split at done
  · rename_i storage' txn' ran
    cases done
    obtain ⟨log, rfl, grows⟩ := executeDml_grows writes active ran
    exact ⟨log, get_eq_ok.mpr (Finmap.lookup_insert _), grows⟩
  · cases done
    exact ⟨[], by rw [known, Transaction.extend_nil], fun table row _ => .refl _ table row⟩
  · cases done

/-- **The statements of a transaction**, for the rows that none of its UPDATEs matches. -/
theorem Writing.grows {id : TxnId} {s s' : Session} {stmts : List DmlStatement}
    (run : Writing id s stmts s') {txn : Transaction} (known : s.manager.get id = .ok txn)
    (active : txn.active = true) :
    ∃ log, s'.manager.get id = .ok (txn.extend log) ∧ ∀ table row,
      Untouched stmts table row = true → Grows s.storage s'.storage log table row := by
  induction run generalizing txn with
  | nil s => exact ⟨[], by rw [known, Transaction.extend_nil], fun table row _ => .refl _ table row⟩
  | cons writes done _ ih =>
    obtain ⟨log, known₁, grows⟩ := exec_grows known active writes done
    obtain ⟨log', known₂, grows'⟩ := ih known₁ active
    refine ⟨log ++ log', by rw [known₂]; simp [Transaction.extend], fun table row untouched => ?_⟩
    obtain ⟨missed, untouched⟩ := Bool.and_eq_true_iff.mp untouched
    exact (grows table row (by simpa using missed)).trans (grows' table row untouched)

/-! ### The undo loop -/

section Undo

variable {table : Str} {row : Row} {key : Str} {wr : WriteRecord} {log : List WriteRecord}

theorem count_restoreFirst {oldRow : Row} (apart : oldRow ≠ row) (key : Str) (rows : List Row) :
    (restoreFirst key oldRow rows).count row +
        (if rows.find? (hasKey key) = some row then 1 else 0) = rows.count row := by
  induction rows with
  | nil => rfl
  | cons first rest ih =>
    rw [restoreFirst, List.find?_cons]
    by_cases found : hasKey key first = true
    · rw [if_pos found, found, List.count_cons_of_ne apart, List.count_cons]
      simp only [Option.some.injEq, beq_iff_eq]
    · rw [if_neg found, Bool.eq_false_of_not_eq_true found, List.count_cons, List.count_cons, ← ih]
      exact Nat.add_right_comm ..

theorem count_removeKey (key : Str) (row : Row) (rows : List Row) :
    (removeKey key rows).count row = if hasKey key row then 0 else rows.count row := by
  unfold removeKey
  by_cases erased : hasKey key row = true
  · rw [if_pos erased, List.count_eq_zero]
    intro member
    have kept := (List.mem_filter.mp member).2
    rw [erased] at kept
    exact Bool.noConfusion kept
  · rw [if_neg erased, List.count_filter (by simpa using erased)]

theorem undoRows_update (spares : Spares table row wr) (write : wr.type ≠ .insert)
    (rows : List Row) :
    undoRows wr rows = restoreFirst wr.key wr.oldRow rows := by
  unfold undoRows
  cases type : wr.type with
  | insert => exact absurd type write
  | update => rfl
  | delete => exact absurd type spares.notDelete

theorem oldRow_ne (spares : Spares table row wr) (write : wr.type ≠ .insert)
    (onTable : wr.table = table) :
    wr.oldRow ≠ row := by
  refine spares.oldRow ?_ onTable
  cases type : wr.type with
  | insert => exact absurd type write
  | update => rfl
  | delete => exact absurd type spares.notDelete

/-- **Undoing an INSERT with the row's id** erases the row. -/
theorem count_undoWrite_insert (hasId : row.id? = some wr.key) (isInsert : wr.type = .insert)
    (storage : TableStorage) : ((undoWrite wr storage).rows wr.table).count row = 0 := by
  rw [rows_undoWrite, if_pos rfl, undoRows, isInsert]
  dsimp only
  rw [count_removeKey, if_pos (by simp [hasKey, hasId])]

/-- **Undoing overwrites a row with this value**, or leaves as many as there were. -/
theorem count_undoWrite (spares : Spares table row wr)
    (noInsert : wr.table = table → row.id? = some wr.key → wr.type ≠ .insert)
    (storage : TableStorage) :
    ((undoWrite wr storage).rows table).count row +
        (if wr.table = table ∧ wr.type ≠ .insert ∧
          (storage.rows table).find? (hasKey wr.key) = some row then 1 else 0) =
      (storage.rows table).count row := by
  rw [rows_undoWrite]
  by_cases onTable : wr.table = table
  · rw [if_pos onTable.symm, if_congr (and_iff_right onTable) rfl rfl]
    by_cases isInsert : wr.type = .insert
    · have other : hasKey wr.key row ≠ true := fun same =>
        noInsert onTable (of_decide_eq_true same) isInsert
      rw [if_neg fun both => both.1 isInsert, undoRows, isInsert]
      dsimp only
      rw [count_removeKey, if_neg other]
      rfl
    · rw [if_congr (and_iff_right isInsert) rfl rfl, undoRows_update spares isInsert]
      exact count_restoreFirst (oldRow_ne spares isInsert onTable) wr.key _
  · rw [if_neg (Ne.symm onTable), if_neg fun all => onTable all.1]
    rfl

theorem count_undoWrite_le (spares : Spares table row wr) (storage : TableStorage) :
    ((undoWrite wr storage).rows table).count row ≤ (storage.rows table).count row := by
  by_cases erases : wr.table = table ∧ row.id? = some wr.key ∧ wr.type = .insert
  · obtain ⟨rfl, hasId, isInsert⟩ := erases
    rw [count_undoWrite_insert hasId isInsert]
    exact Nat.zero_le _
  · have count :=
      count_undoWrite spares (fun onTable hasId isInsert => erases ⟨onTable, hasId, isInsert⟩)
      storage
    omega

theorem count_undoWrites_le (spares : ∀ wr ∈ log, Spares table row wr) (storage : TableStorage) :
    ((log.foldr undoWrite storage).rows table).count row ≤ (storage.rows table).count row := by
  induction log with
  | nil => exact le_rfl
  | cons wr log ih =>
    obtain ⟨head, rest⟩ := List.forall_mem_cons.mp spares
    exact (count_undoWrite_le head _).trans (ih rest)

end Undo

/-! ### Rows in front

A row that stands in front of an untouched one and has its id is overwritten in its place. -/

section Front

variable {table : Str} {row : Row} {key : Str} {wr : WriteRecord} {log : List WriteRecord}
  {front : List Str} {rows : List Row}

/-- The ids of the rows in front of the first one with this value. -/
def frontIds (row : Row) (rows : List Row) : List Str :=
  (rows.takeWhile (· ≠ row)).filterMap Row.id?

/-- **What a record is to the ids in front of a row**: an INSERT has added its id to them, and an
UPDATE, if its new id is among them, has put it in the place of the old one. -/
def takeBack (wr : WriteRecord) (front : List Str) : List Str :=
  if wr.type = .insert then front.filter (· ≠ wr.key)
  else if wr.key ∈ front then wr.oldRow.id?.toList ++ front.erase wr.key
  else front

/-- The ids in front before the records of this table. -/
def frontBefore (table : Str) (log : List WriteRecord) (front : List Str) : List Str :=
  (log.filter (·.table = table)).foldr takeBack front

/-- **The row is sheltered**: each record with its id is an UPDATE, and then the id is in front. -/
def Sheltered (table key : Str) (front : List Str) : List WriteRecord → Prop
  | [] => True
  | wr :: log => Sheltered table key front log ∧
    (wr.table = table → wr.key = key → wr.type ≠ .insert ∧ key ∈ frontBefore table log front)

/-- The ids in front of the first row with a value, up to their order. -/
def Fronts (row : Row) (front : List Str) (rows : List Row) : Prop :=
  ∃ before rest, rows = before ++ row :: rest ∧ row ∉ before ∧ (before.filterMap Row.id?).Perm front

theorem fronts_frontIds (member : row ∈ rows) : Fronts row (frontIds row rows) rows := by
  obtain ⟨before, rest, rfl, absent⟩ := List.eq_append_cons_of_mem member
  refine ⟨before, rest, rfl, absent, ?_⟩
  have others : ∀ r ∈ before, decide (r ≠ row) = true := fun r inside =>
    decide_eq_true fun same => absent (same ▸ inside)
  rw [frontIds, List.takeWhile_append_of_pos others, List.takeWhile_cons_of_neg (by simp),
    List.append_nil]

/-- Overwriting the first row with an id, among the ids. -/
theorem ids_restoreFirst {oldRow : Row} (among : key ∈ rows.filterMap Row.id?) :
    ((restoreFirst key oldRow rows).filterMap Row.id?).Perm
      (oldRow.id?.toList ++ (rows.filterMap Row.id?).erase key) := by
  induction rows with
  | nil => simp at among
  | cons first rest ih =>
    rw [restoreFirst]
    cases hasId : first.id? with
    | none =>
      rw [List.filterMap_cons_none hasId] at among ⊢
      rw [if_neg (by simp [hasKey, hasId]), List.filterMap_cons_none hasId]
      exact ih among
    | some own =>
      rw [List.filterMap_cons_some hasId] at among ⊢
      by_cases same : own = key
      · rw [if_pos (by simp [hasKey, hasId, same]), same, List.erase_cons_head]
        cases old : oldRow.id? with
        | none => rw [List.filterMap_cons_none old]; rfl
        | some id => rw [List.filterMap_cons_some old]; rfl
      · have later := (List.mem_cons.mp among).resolve_left (Ne.symm same)
        rw [if_neg (by simp [hasKey, hasId, same]), List.filterMap_cons_some hasId,
          List.erase_cons_tail (by simpa using same)]
        exact ((ih later).cons own).trans List.perm_middle.symm

theorem ids_removeKey (key : Str) (rows : List Row) :
    (removeKey key rows).filterMap Row.id? = (rows.filterMap Row.id?).filter (· ≠ key) := by
  unfold removeKey
  induction rows with
  | nil => rfl
  | cons first rest ih =>
    cases hasId : first.id? with
    | none =>
      rw [List.filter_cons_of_pos (by simp [hasKey, hasId]), List.filterMap_cons_none hasId,
        List.filterMap_cons_none hasId, ih]
    | some own =>
      rw [List.filterMap_cons_some hasId]
      by_cases same : own = key
      · rw [List.filter_cons_of_neg (by simp [hasKey, hasId, same]), ih,
          List.filter_cons_of_neg (by simp [same])]
      · rw [List.filter_cons_of_pos (by simp [hasKey, hasId, same]),
          List.filterMap_cons_some hasId, ih,
          List.filter_cons_of_pos (by simpa using same)]

theorem exists_hasKey_iff {rows : List Row} :
    (∃ r ∈ rows, hasKey key r = true) ↔ key ∈ rows.filterMap Row.id? := by
  rw [List.mem_filterMap]
  simp only [hasKey, decide_eq_true_eq]

/-- The first row with an id, and whether it is the one that others stand in front of. -/
theorem find_fronts (hasId : row.id? = some key) (fronts : Fronts row front rows) (other : Str) :
    rows.find? (hasKey other) = some row ↔ other = key ∧ key ∉ front := by
  obtain ⟨before, rest, rfl, absent, ids⟩ := fronts
  rw [← ids.mem_iff, ← exists_hasKey_iff]
  constructor
  · intro found
    obtain rfl : other = key := by
      have reached := List.find?_some found
      simp only [hasKey, hasId, Option.some.injEq, decide_eq_true_eq] at reached
      exact reached.symm
    refine ⟨rfl, ?_⟩
    rintro ⟨r, inside, reached⟩
    obtain ⟨first, isFirst⟩ :=
      Option.isSome_iff_exists.mp (List.find?_isSome.mpr ⟨r, inside, reached⟩)
    rw [List.find?_append, isFirst, Option.some_or] at found
    cases found
    exact absent (List.mem_of_find?_eq_some isFirst)
  · rintro ⟨rfl, outside⟩
    have nothing : before.find? (hasKey other) = none :=
      List.find?_eq_none.mpr fun r inside reached => outside ⟨r, inside, reached⟩
    rw [List.find?_append, nothing, Option.none_or,
      List.find?_cons_of_pos (by simp [hasKey, hasId])]

theorem restoreFirst_append {oldRow : Row} {before : List Row}
    (found : ∃ r ∈ before, hasKey key r = true) (rest : List Row) :
    restoreFirst key oldRow (before ++ rest) = restoreFirst key oldRow before ++ rest := by
  induction before with
  | nil => simp at found
  | cons first before ih =>
    rw [List.cons_append, restoreFirst, restoreFirst]
    by_cases here : hasKey key first = true
    · rw [if_pos here, if_pos here, List.cons_append]
    · obtain ⟨r, member, reached⟩ := found
      have later := (List.mem_cons.mp member).resolve_left fun same => here (same ▸ reached)
      rw [if_neg here, if_neg here, List.cons_append, ih ⟨r, later, reached⟩]

theorem restoreFirst_skip {oldRow : Row} {before : List Row}
    (none : ∀ r ∈ before, hasKey key r ≠ true) (rest : List Row) :
    restoreFirst key oldRow (before ++ rest) = before ++ restoreFirst key oldRow rest := by
  induction before with
  | nil => rfl
  | cons first before ih =>
    obtain ⟨here, later⟩ := List.forall_mem_cons.mp none
    rw [List.cons_append, restoreFirst, if_neg here, ih later, List.cons_append]

/-- **A step that does not reach the row** does to the ids in front what the record tells. -/
theorem Fronts.undoRows (hasId : row.id? = some key) (fronts : Fronts row front rows)
    (spares : Spares table row wr) (onTable : wr.table = table)
    (sheltered : wr.key = key → wr.type ≠ .insert ∧ key ∈ front) :
    Fronts row (takeBack wr front) (undoRows wr rows) := by
  obtain ⟨before, rest, rfl, absent, ids⟩ := fronts
  unfold takeBack
  by_cases isInsert : wr.type = .insert
  · have other : hasKey wr.key row ≠ true := by
      simp only [hasKey, hasId, Option.some.injEq]
      exact fun same => (sheltered (of_decide_eq_true same).symm).1 isInsert
    have undone : MyDb.undoRows wr (before ++ row :: rest) =
        removeKey wr.key before ++ row :: removeKey wr.key rest := by
      unfold MyDb.undoRows removeKey
      rw [isInsert]
      dsimp only
      rw [List.filter_append, List.filter_cons_of_pos (by simpa using other)]
    rw [if_pos isInsert, undone]
    refine ⟨_, _, rfl, fun inside => absent (List.mem_filter.mp inside).1, ?_⟩
    rw [ids_removeKey]
    exact ids.filter _
  · rw [if_neg isInsert, undoRows_update spares isInsert]
    by_cases among : wr.key ∈ front
    · have found := ids.mem_iff.mpr among
      rw [if_pos among, restoreFirst_append (exists_hasKey_iff.mpr found)]
      refine ⟨_, _, rfl, fun inside => ?_,
        (ids_restoreFirst found).trans (.append_left _ (ids.erase _))⟩
      rw [restoreFirst_eq_replace] at inside
      rcases KeyedList.mem_replace inside with same | old
      · exact oldRow_ne spares isInsert onTable same.symm
      · exact absent old
    · have none : ∀ r ∈ before, hasKey wr.key r ≠ true := fun r inside reached =>
        among (ids.mem_iff.mp (exists_hasKey_iff.mp ⟨r, inside, reached⟩))
      have other : hasKey wr.key row ≠ true := by
        simp only [hasKey, hasId, Option.some.injEq]
        intro reached
        have same := of_decide_eq_true reached
        exact among (same ▸ (sheltered same.symm).2)
      rw [if_neg among, restoreFirst_skip none, restoreFirst, if_neg other]
      exact ⟨before, _, rfl, absent, ids⟩

theorem frontBefore_cons (wr : WriteRecord) (log : List WriteRecord) (front : List Str) :
    frontBefore table (wr :: log) front =
      if wr.table = table then takeBack wr (frontBefore table log front)
      else frontBefore table log front := by
  unfold frontBefore
  by_cases onTable : wr.table = table
  · rw [List.filter_cons_of_pos (by simpa using onTable), if_pos onTable, List.foldr_cons]
  · rw [List.filter_cons_of_neg (by simpa using onTable), if_neg onTable]

/-- **The undo loop on a sheltered row**: no row with its value is overwritten. -/
theorem Sheltered.undoWrites {storage : TableStorage} (hasId : row.id? = some key)
    (fronts : Fronts row front (storage.rows table)) (spares : ∀ wr ∈ log, Spares table row wr)
    (sheltered : Sheltered table key front log) :
    Fronts row (frontBefore table log front) ((log.foldr undoWrite storage).rows table) ∧
      ((log.foldr undoWrite storage).rows table).count row = (storage.rows table).count row := by
  induction log with
  | nil => exact ⟨fronts, rfl⟩
  | cons wr log ih =>
    obtain ⟨head, rest⟩ := List.forall_mem_cons.mp spares
    obtain ⟨before, here⟩ := sheltered
    obtain ⟨fronts', count⟩ := ih rest before
    have kept := count_undoWrite head
      (fun onTable same => (here onTable (Option.some.inj (same.symm.trans hasId))).1)
      (log.foldr undoWrite storage)
    rw [frontBefore_cons, List.foldr_cons, rows_undoWrite]
    by_cases onTable : wr.table = table
    · rw [if_pos onTable, if_pos onTable.symm]
      refine ⟨fronts'.undoRows hasId head onTable (here onTable), ?_⟩
      rw [rows_undoWrite, if_pos onTable.symm, if_neg, Nat.add_zero, count] at kept
      · exact kept
      · rintro ⟨-, -, found⟩
        obtain ⟨same, none⟩ := (find_fronts hasId fronts' wr.key).mp found
        exact none (here onTable same).2
    · rw [if_neg onTable, if_neg (Ne.symm onTable)]
      exact ⟨fronts', count⟩

/-- **A row that is not sheltered** is erased, or one with its value is overwritten. -/
theorem count_of_not_sheltered {storage : TableStorage} (hasId : row.id? = some key)
    (fronts : Fronts row front (storage.rows table)) (spares : ∀ wr ∈ log, Spares table row wr)
    (exposed : ¬ Sheltered table key front log) :
    ((log.foldr undoWrite storage).rows table).count row < (storage.rows table).count row := by
  have some : 0 < (storage.rows table).count row := by
    obtain ⟨before, rest, same, -⟩ := fronts
    exact List.count_pos_iff.mpr (same ▸ List.mem_append_right _ List.mem_cons_self)
  induction log with
  | nil => exact absurd trivial exposed
  | cons wr log ih =>
    obtain ⟨head, rest⟩ := List.forall_mem_cons.mp spares
    rw [List.foldr_cons]
    by_cases sheltered : Sheltered table key front log
    · obtain ⟨fronts', count⟩ := sheltered.undoWrites hasId fronts rest
      have reached : wr.table = table ∧ wr.key = key ∧
          (wr.type ≠ .insert → key ∉ frontBefore table log front) := by
        by_contra other
        refine exposed ⟨sheltered, fun onTable same => ?_⟩
        by_contra unsafe'
        exact other ⟨onTable, same, fun write among => unsafe' ⟨write, among⟩⟩
      obtain ⟨rfl, rfl, outside⟩ := reached
      by_cases isInsert : wr.type = .insert
      · rw [count_undoWrite_insert hasId isInsert]
        exact some
      · have found := (find_fronts hasId fronts' wr.key).mpr ⟨rfl, outside isInsert⟩
        have lost := count_undoWrite head (fun _ _ => isInsert) (log.foldr undoWrite storage)
        rw [if_pos ⟨rfl, isInsert, found⟩, count] at lost
        omega
    · exact (count_undoWrite_le head _).trans_lt (ih rest sheltered)

end Front

/-! ### Ids that stay with their rows -/

section Stay

variable {table : Str} {row : Row} {key : Str} {wr : WriteRecord} {log : List WriteRecord}

/-- The id is the key of a record. -/
def IsKey (table key : Str) (log : List WriteRecord) : Prop :=
  ∃ wr ∈ log, wr.table = table ∧ wr.key = key

instance (table key : Str) (log : List WriteRecord) : Decidable (IsKey table key log) :=
  inferInstanceAs (Decidable (∃ wr ∈ log, _ ∧ _))

/-- An UPDATE gave the id to a row, or took it from one. -/
def Moved (table key : Str) (log : List WriteRecord) : Prop :=
  ∃ wr ∈ log, wr.table = table ∧ wr.type ≠ .insert ∧ ¬ (wr.oldRow.id? = some key ↔ wr.key = key)

instance (table key : Str) (log : List WriteRecord) : Decidable (Moved table key log) :=
  inferInstanceAs (Decidable (∃ wr ∈ log, _ ∧ _ ∧ ¬ (_ ↔ _)))

theorem find_restoreFirst {oldRow : Row} {own : Str} (same : oldRow.id? = some key ↔ own = key)
    (rows : List Row) : (restoreFirst own oldRow rows).find? (hasKey key) =
      if own = key then (rows.find? (hasKey key)).map fun _ => oldRow
        else rows.find? (hasKey key) := by
  have old : hasKey key oldRow = true ↔ own = key := by
    unfold hasKey
    rw [decide_eq_true_eq, same]
  induction rows with
  | nil => split <;> rfl
  | cons first rest ih =>
    rw [restoreFirst]
    by_cases equal : own = key
    · subst equal
      rw [if_pos rfl] at ih ⊢
      by_cases here : hasKey own first = true
      · rw [if_pos here, List.find?_cons_of_pos (old.mpr rfl), List.find?_cons_of_pos here]
        rfl
      · rw [if_neg here, List.find?_cons_of_neg here, List.find?_cons_of_neg here, ih]
    · rw [if_neg equal] at ih ⊢
      by_cases here : hasKey own first = true
      · have other : ¬ hasKey key first = true := by
          simp only [hasKey, decide_eq_true_eq] at here ⊢
          rw [here]
          exact fun bad => equal (Option.some.inj bad)
        rw [if_pos here, List.find?_cons_of_neg (fun bad => equal (old.mp bad)),
          List.find?_cons_of_neg other]
      · rw [if_neg here, List.find?_cons, List.find?_cons, ih]

/-- A step about other ids. -/
theorem find_undoRows {own : Str} (spares : Spares table row wr) (other : wr.key ≠ own)
    (apart : wr.type ≠ .insert → wr.oldRow.id? ≠ some own) (rows : List Row) :
    (undoRows wr rows).find? (hasKey own) = rows.find? (hasKey own) := by
  by_cases isInsert : wr.type = .insert
  · rw [undoRows, isInsert]
    dsimp only
    rw [removeKey, List.find?_filter]
    congr 1
    funext r
    by_cases reached : hasKey own r = true
    · have kept : hasKey wr.key r = false := by
        simp only [hasKey, decide_eq_true_eq, decide_eq_false_iff_not] at reached ⊢
        rw [reached]
        exact fun bad => other (Option.some.inj bad).symm
      rw [reached, kept]
      rfl
    · rw [Bool.eq_false_of_not_eq_true reached]
      exact decide_eq_false fun both => Bool.noConfusion both.2
  · rw [undoRows_update spares isInsert,
      find_restoreFirst (iff_of_false (apart isInsert) other), if_neg other]

/-- The undo of a record with the id overwrites the first row with it, and puts an old row there. -/
theorem undoWrite_of_own (spares : Spares wr.table row wr) (write : wr.type ≠ .insert)
    (own : wr.oldRow.id? = some wr.key) (storage : TableStorage) :
    ((undoWrite wr storage).rows wr.table).count row +
        (if (storage.rows wr.table).find? (hasKey wr.key) = some row then 1 else 0) =
      (storage.rows wr.table).count row ∧
    ((undoWrite wr storage).rows wr.table).find? (hasKey wr.key) ≠ some row := by
  have step := count_undoWrite spares (fun _ _ => write) storage
  have after := find_restoreFirst (iff_of_true own rfl) (storage.rows wr.table)
  rw [if_pos rfl, ← undoRows_update spares write] at after
  constructor
  · rwa [if_congr (and_iff_right rfl) rfl rfl, if_congr (and_iff_right write) rfl rfl] at step
  · intro found
    rw [rows_undoWrite, if_pos rfl, after] at found
    obtain ⟨old, -, same⟩ := Option.map_eq_some_iff.mp found
    exact oldRow_ne spares write rfl same

/-- The undo of a record of another table or id changes nothing about the row. -/
theorem undoWrite_of_other (hasId : row.id? = some key) (spares : Spares table row wr)
    (other : ¬ (wr.table = table ∧ wr.key = key))
    (stays : wr.table = table → wr.type ≠ .insert → wr.oldRow.id? ≠ some key)
    (storage : TableStorage) :
    ((undoWrite wr storage).rows table).count row = (storage.rows table).count row ∧
    ((undoWrite wr storage).rows table).find? (hasKey key) =
      (storage.rows table).find? (hasKey key) := by
  have step := count_undoWrite spares
    (fun onTable same => absurd ⟨onTable, Option.some.inj (same.symm.trans hasId)⟩ other) storage
  have missed : ¬ (wr.table = table ∧ wr.type ≠ .insert ∧
      (storage.rows table).find? (hasKey wr.key) = some row) := by
    rintro ⟨onTable, -, found⟩
    have reached := List.find?_some found
    simp only [hasKey, hasId, Option.some.injEq, decide_eq_true_eq] at reached
    exact other ⟨onTable, reached.symm⟩
  rw [if_neg missed, Nat.add_zero] at step
  refine ⟨step, ?_⟩
  rw [rows_undoWrite]
  split
  · rename_i onTable
    exact find_undoRows spares (fun same => other ⟨onTable.symm, same⟩) (stays onTable.symm) _
  · rfl

/-- **The undo loop, where no UPDATE moves the row's id**: it overwrites one row with the id, the
first. -/
theorem count_undoWrites_of_stay {storage : TableStorage} (hasId : row.id? = some key)
    (spares : ∀ wr ∈ log, Spares table row wr) (stay : ¬ Moved table key log)
    (noInsert : ∀ wr ∈ log, wr.table = table → wr.key = key → wr.type ≠ .insert) :
    ((log.foldr undoWrite storage).rows table).count row +
        (if IsKey table key log ∧ (storage.rows table).find? (hasKey key) = some row then 1
          else 0) =
      (storage.rows table).count row ∧
    (((log.foldr undoWrite storage).rows table).find? (hasKey key) = some row ↔
      ¬ IsKey table key log ∧ (storage.rows table).find? (hasKey key) = some row) := by
  induction log with
  | nil => simp [IsKey]
  | cons wr log ih =>
    obtain ⟨head, rest⟩ := List.forall_mem_cons.mp spares
    obtain ⟨noHead, noRest⟩ := List.forall_mem_cons.mp noInsert
    obtain ⟨count, first⟩ :=
      ih rest (fun ⟨w, member, moved⟩ => stay ⟨w, List.mem_cons_of_mem _ member, moved⟩) noRest
    have stays : wr.table = table → wr.type ≠ .insert →
        (wr.oldRow.id? = some key ↔ wr.key = key) := fun onTable write => by
      by_contra moved
      exact stay ⟨wr, List.mem_cons_self, onTable, write, moved⟩
    have isKey : IsKey table key (wr :: log) ↔
        (wr.table = table ∧ wr.key = key) ∨ IsKey table key log :=
      List.exists_mem_cons_iff ..
    rw [if_congr (and_congr_left' isKey) rfl rfl, not_congr isKey, List.foldr_cons]
    by_cases here : wr.table = table ∧ wr.key = key
    · obtain ⟨rfl, rfl⟩ := here
      have write := noHead rfl rfl
      obtain ⟨lost, gone⟩ := undoWrite_of_own head write ((stays rfl write).mpr rfl)
        (log.foldr undoWrite storage)
      refine ⟨?_, iff_of_false gone fun both => both.1 (.inl ⟨rfl, rfl⟩)⟩
      rw [if_congr first rfl rfl] at lost
      rw [if_congr (and_iff_right (Or.inl ⟨rfl, rfl⟩)) rfl rfl]
      -- the first row with the id is the row only as long as no later record has the id
      by_cases atFirst : (storage.rows wr.table).find? (hasKey wr.key) = some row
      · rw [if_congr (and_iff_left atFirst) rfl rfl] at count lost
        rw [if_pos atFirst]
        by_cases earlier : IsKey wr.table wr.key log
        · rw [if_pos earlier] at count
          rw [if_neg (not_not_intro earlier)] at lost
          omega
        · rw [if_neg earlier] at count
          rw [if_pos earlier] at lost
          omega
      · rw [if_neg fun both => atFirst both.2] at count lost
        rw [if_neg atFirst]
        omega
    · obtain ⟨same, unchanged⟩ := undoWrite_of_other hasId head here
        (fun onTable write own => here ⟨onTable, (stays onTable write).mp own⟩)
        (log.foldr undoWrite storage)
      rw [same, unchanged, if_congr (and_congr_left' (or_iff_right here)) rfl rfl,
        not_congr (or_iff_right here)]
      exact ⟨count, first⟩

end Stay

/-! ### Rollback -/

section Rollback

variable {order : RowOrder} {id : TxnId}

/-- **The undo loop spares the row**: no INSERT of the transaction has its id. Where no UPDATE moved
the id, it is no record's key, or the row is not the first with it, or an UPDATE made a row like it.
Otherwise the row is sheltered by those that stand in front of it. -/
def Spared (after : TableStorage) (log : List WriteRecord) (table key : Str) (row : Row) : Prop :=
  if Moved table key log then Sheltered table key (frontIds row (after.rows table)) log
  else (∀ wr ∈ log, wr.table = table → wr.key = key → wr.type ≠ .insert) ∧
    (IsKey table key log → (after.rows table).find? (hasKey key) = some row →
      0 < made table row log)

/-- A row without an id is out of the undo loop's reach. -/
theorem count_undoWrites_of_bare {table : Str} {row : Row} {log : List WriteRecord}
    (noId : row.id? = none) (spares : ∀ wr ∈ log, Spares table row wr) (storage : TableStorage) :
    ((log.foldr undoWrite storage).rows table).count row = (storage.rows table).count row := by
  induction log with
  | nil => rfl
  | cons wr log ih =>
    obtain ⟨head, rest⟩ := List.forall_mem_cons.mp spares
    have step := count_undoWrite head (fun _ same => nomatch noId.symm.trans same)
      (log.foldr undoWrite storage)
    rw [if_neg, Nat.add_zero, ih rest] at step
    · exact step
    · rintro ⟨-, -, found⟩
      have reached := List.find?_some found
      simp only [hasKey, noId, decide_eq_true_eq] at reached
      cases reached

/-- **One value's rows**: they all survive the undo loop if the row is spared; and only then, unless
an UPDATE moved the row's id and an UPDATE made a row like it. -/
theorem spared_of_count {before after : TableStorage} {log : List WriteRecord}
    {table key : Str} {row : Row} (grows : Grows before after log table row)
    (present : row ∈ before.rows table) (hasId : row.id? = some key) :
    (Spared after log table key row →
      (before.rows table).count row ≤ ((log.foldr undoWrite after).rows table).count row) ∧
    ((before.rows table).count row ≤ ((log.foldr undoWrite after).rows table).count row →
      Spared after log table key row ∨ Moved table key log ∧ 0 < made table row log) := by
  have count := grows.count
  have some := List.count_pos_iff.mpr present
  have there : row ∈ after.rows table := List.count_pos_iff.mp (by omega)
  unfold Spared
  by_cases moved : Moved table key log
  · rw [if_pos moved]
    constructor
    · intro sheltered
      have kept := (sheltered.undoWrites hasId (fronts_frontIds there) grows.spares).2
      omega
    · intro survive
      by_cases sheltered : Sheltered table key (frontIds row (after.rows table)) log
      · exact .inl sheltered
      · have lost := count_of_not_sheltered hasId (fronts_frontIds there) grows.spares sheltered
        exact .inr ⟨moved, by omega⟩
  · rw [if_neg moved]
    by_cases noInsert : ∀ wr ∈ log, wr.table = table → wr.key = key → wr.type ≠ .insert
    · have left := (@count_undoWrites_of_stay _ _ _ _ after hasId grows.spares moved noInsert).1
      rw [and_iff_right noInsert]
      by_cases reached : IsKey table key log ∧ (after.rows table).find? (hasKey key) =
        Option.some row
      · rw [if_pos reached] at left
        refine ⟨fun made => ?_, fun survive => .inl fun _ _ => by omega⟩
        have := made reached.1 reached.2
        omega
      · rw [if_neg reached] at left
        exact ⟨fun _ => by omega, fun _ => .inl fun record first => absurd ⟨record, first⟩ reached⟩
    · refine ⟨fun both => absurd both.1 noInsert, fun survive => ?_⟩
      push Not at noInsert
      obtain ⟨wr, member, rfl, rfl, isInsert⟩ := noInsert
      obtain ⟨earlier, later, rfl⟩ := List.append_of_mem member
      have lost := count_undoWrites_le
        (fun w inside => grows.spares w (List.mem_append_left _ inside))
        (undoWrite wr (later.foldr undoWrite after))
      rw [count_undoWrite_insert hasId isInsert] at lost
      rw [List.foldr_append, List.foldr_cons] at survive
      omega

/-- Two users with one id, of different ages. -/
def agedRow (age : String) : Row := (idRow "1").insert (str "age") (str age)

/-- `UPDATE users SET age = 9 WHERE age = 2`. -/
def ageUser : DmlStatement :=
  .update
    { table := str "users"
      assignments := [(str "age", .literal .integer (str "9"))]
      where? := some
        (.binary (str "=") (.columnRef [] (str "age")) (.literal .integer (str "2"))) }

end Rollback

end MyDb
