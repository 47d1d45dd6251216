/-
**Recovery of an UPDATE that may assign `id`.**

The log record of an updated row carries the id the row has after the assignments; redo looks that
id up in the table as it was before them, and puts the row there that the record's text reads as.
`recover_update_iff`: on a table in which an id names a row, before and after the statement, the
redone table is the updated one exactly when

* every new row is read back from its text, and
* every id that a matched row gives up is given to a matched row; one that nothing takes over is
  left to its old row.

For the first condition, a row that is not read back is in the redone table neither as an image,
since all images are faithful, nor as an old row, since its own record overwrites that one
(`redo_updates_loses`).
-/

import MyDatabaseEngine.Txn.ExactReplay

namespace MyDb

open KeyedList

variable {stmt : UpdateStatement} {order : RowOrder}

/-- What the log of an UPDATE reads back as. -/
def readUpdates (order : RowOrder) (stmt : UpdateStatement) (matched : List Row) :
    List WriteRecord :=
  matched.map fun row =>
    (updateRecord stmt.table row (applyAssignments stmt.assignments row)).readBack order

/-- The row that is put into the table for an updated one. -/
def newImage (order : RowOrder) (stmt : UpdateStatement) (row : Row) : Row :=
  deserializeRow (serializeRow order (applyAssignments stmt.assignments row))

/-- Redo of one updated row, on a table in which an id names a row. -/
theorem rows_redo_update {storage : TableStorage} (keyed : Keyed Row.id? (storage.rows stmt.table))
    {row : Row} {key : Str} (hasId : (applyAssignments stmt.assignments row).id? = some key) :
    (redoWrite
        ((updateRecord stmt.table row (applyAssignments stmt.assignments row)).readBack order)
        storage).rows stmt.table =
      upsert Row.id? key (newImage order stmt row) (storage.rows stmt.table) := by
  have own : recordKey (applyAssignments stmt.assignments row) = key := recordKey_of_id hasId
  rw [redoWrite_update rfl keyed, ← own]
  exact TableStorage.rows_setRows_self ..

/-- Redo of the records of updated rows that are read back: each is upserted under its new id. -/
theorem rows_redo_updates {matched : List Row}
    (news : Keyed Row.id? (matched.map (applyAssignments stmt.assignments)))
    (faithful : ∀ row ∈ matched, FaithfulText (applyAssignments stmt.assignments row)) :
    ∀ {storage : TableStorage}, Keyed Row.id? (storage.rows stmt.table) →
      ((readUpdates order stmt matched).foldl (fun storage wr => redoWrite wr storage) storage).rows
          stmt.table =
        upsertAll Row.id? (matched.map (applyAssignments stmt.assignments))
          (storage.rows stmt.table) := by
  induction matched with
  | nil => exact fun _ => rfl
  | cons row matched ih =>
    intro storage keyed
    obtain ⟨⟨key, hasId, -⟩, rest⟩ := Keyed.cons_iff.mp news
    obtain ⟨here, later⟩ := List.forall_mem_cons.mp faithful
    have step := @rows_redo_update stmt order storage keyed row key hasId
    have image : newImage order stmt row = applyAssignments stmt.assignments row :=
      deserializeRow_serializeRow order here
    rw [image] at step
    have next := ih rest later (step ▸ keyed_upsert keyed hasId)
    rw [List.map_cons, upsertAll_cons hasId, ← step, ← next]
    rfl

/-! ### A new row that is not read back -/

section Lost

variable {row new : Row} {rows : List Row}

/-- The row is not in the table, and no search through `row["id"]` makes it. -/
def Lost (row : Row) (rows : List Row) : Prop :=
  row ∉ rows ∧ ∀ r ∈ rows, r.id?.isSome ∨ FaithfulText r

theorem faithfulText_touchId (faithful : FaithfulText row) : FaithfulText (touchId row) := by
  unfold touchId
  split
  · exact faithful
  · exact faithfulText_insert faithful (by decide) List.not_mem_nil

theorem lost_cons {r : Row} :
    Lost row (r :: rows) ↔ (row ≠ r ∧ (r.id?.isSome ∨ FaithfulText r)) ∧ Lost row rows := by
  unfold Lost
  rw [List.forall_mem_cons, List.mem_cons, not_or]
  tauto

theorem Lost.overwriteFirst (unfaithful : ¬ FaithfulText row) (key : Str) (image : FaithfulText new)
    (lost : Lost row rows) : Lost row (overwriteFirst key new rows).1 := by
  have other : ∀ r, FaithfulText r → row ≠ r := fun r faithful same => unfaithful (same ▸ faithful)
  induction rows with
  | nil => exact lost
  | cons r rows ih =>
    obtain ⟨⟨notHere, shape⟩, rest⟩ := lost_cons.mp lost
    rw [MyDb.overwriteFirst]
    split
    · exact lost_cons.mpr ⟨⟨other new image, .inr image⟩, rest⟩
    · refine lost_cons.mpr ⟨?_, ih rest⟩
      cases hasId : r.id? with
      | some key => exact (touchId_of_id (Option.isSome_of_eq_some hasId)).symm ▸ ⟨notHere, shape⟩
      | none =>
        have faithful := faithfulText_touchId (shape.resolve_left (by simp [hasId]))
        exact ⟨other _ faithful, .inr faithful⟩

/-- **Redo of a record whose image is another row does not bring the row back.** -/
theorem Lost.redo (unfaithful : ¬ FaithfulText row) {old : Row} {storage : TableStorage}
    (lost : Lost row (storage.rows stmt.table)) :
    Lost row ((redoWrite
      ((updateRecord stmt.table old (applyAssignments stmt.assignments old)).readBack
      order) storage).rows stmt.table) := by
  have image : FaithfulText (newImage order stmt old) := faithfulText_deserializeRow _
  have searched := lost.overwriteFirst unfaithful
    (recordKey (applyAssignments stmt.assignments old)) image
  show Lost row ((storage.setRows stmt.table _).rows stmt.table)
  rw [TableStorage.rows_setRows_self]
  split
  · exact searched
  · refine ⟨fun member => ?_, fun r member => ?_⟩
    · rcases List.mem_append.mp member with inside | last
      · exact searched.1 inside
      · exact unfaithful (List.mem_singleton.mp last ▸ image)
    · rcases List.mem_append.mp member with inside | last
      · exact searched.2 r inside
      · exact .inr (List.mem_singleton.mp last ▸ image)

theorem Lost.redo_updates (unfaithful : ¬ FaithfulText row) (matched : List Row)
    {storage : TableStorage} (lost : Lost row (storage.rows stmt.table)) :
    Lost row (((readUpdates order stmt matched).foldl (fun storage wr => redoWrite wr storage)
      storage).rows stmt.table) := by
  induction matched generalizing storage with
  | nil => exact lost
  | cons old matched ih => exact ih (lost.redo unfaithful)

/-- **A new row that is not read back is lost**: the first one in the log has its old row
overwritten by its image, and no later record makes it. -/
theorem redo_updates_loses {matched : List Row}
    (news : Keyed Row.id? (matched.map (applyAssignments stmt.assignments)))
    (unfaithful : ∃ row ∈ matched, ¬ FaithfulText (applyAssignments stmt.assignments row)) :
    ∀ {storage : TableStorage}, Keyed Row.id? (storage.rows stmt.table) →
      ∃ row ∈ matched, applyAssignments stmt.assignments row ∉
        ((readUpdates order stmt matched).foldl (fun storage wr => redoWrite wr storage)
          storage).rows stmt.table := by
  induction matched with
  | nil =>
    obtain ⟨_, member, -⟩ := unfaithful
    exact absurd member List.not_mem_nil
  | cons first matched ih =>
    intro storage keyed
    obtain ⟨⟨key, hasId, -⟩, rest⟩ := Keyed.cons_iff.mp news
    have step := @rows_redo_update stmt order storage keyed _ key hasId
    by_cases faithful : FaithfulText (applyAssignments stmt.assignments first)
    · obtain ⟨row, member, broken⟩ := unfaithful
      have later := (List.mem_cons.mp member).resolve_left fun same => broken (same ▸ faithful)
      have image : newImage order stmt first = applyAssignments stmt.assignments first :=
        deserializeRow_serializeRow order faithful
      rw [image] at step
      obtain ⟨lost, inside, gone⟩ := ih rest ⟨row, later, broken⟩ (step ▸ keyed_upsert keyed hasId)
      exact ⟨lost, List.mem_cons_of_mem _ inside, gone⟩
    · refine ⟨first, List.mem_cons_self, ?_⟩
      have image : FaithfulText (newImage order stmt first) := faithfulText_deserializeRow _
      have lost : Lost (applyAssignments stmt.assignments first)
        ((redoWrite ((updateRecord stmt.table first
          (applyAssignments stmt.assignments first)).readBack order) storage).rows stmt.table) := by
        rw [step]
        refine ⟨fun member => ?_, fun r member => ?_⟩
        · rcases keyed.mem_upsert member with same | ⟨-, other⟩
          · exact faithful (same ▸ image)
          · exact other hasId
        · rcases keyed.mem_upsert member with rfl | ⟨old, -⟩
          · exact .inr image
          · exact .inl (keyed.isSome r old)
      exact (lost.redo_updates faithful matched).1

end Lost

/-! ### The statement in its transaction -/

section Session

variable {id : TxnId} {s s₁ s₂ s₃ : Session} {txn : Transaction}

/-- **What an UPDATE does to its session**; on a table that is not there, nothing. -/
theorem exec_update (known : s.manager.get id = .ok txn) (active : txn.active = true)
    (done : s.exec id (.update stmt) = .ok s₁) :
    s₁.storage.rows stmt.table = (s.storage.rows stmt.table).map (updatedRow stmt) ∧
      s₁.manager.get id = .ok (txn.extend (updateLog stmt (s.storage.rows stmt.table))) ∧
      ManagerFrame id s.manager s₁.manager := by
  unfold Session.exec at done
  rw [known] at done
  simp only [bind, Except.bind, executeDml, executeUpdate] at done
  cases found : s.storage.lookup stmt.table with
  | none =>
    rw [found] at done
    cases done
    rw [TableStorage.rows_of_absent found]
    exact ⟨rfl, known.trans (congrArg _ txn.extend_nil.symm), .refl _ _⟩
  | some rows =>
    rw [found] at done
    simp only [updateRows_eq stmt rows txn active] at done
    cases done
    rw [TableStorage.rows_of_lookup found]
    refine ⟨TableStorage.rows_setRows_self .., get_eq_ok.mpr (Finmap.lookup_insert _), rfl, rfl, ?_⟩
    exact fun other different => Finmap.lookup_insert_of_ne _ different

/-- **The log of a transaction of one UPDATE.** -/
theorem log_update {wal : Wal} (fresh : s.manager = { wal := some wal })
    (unused : wal.appended = []) (begun : s.begin = (id, s₁))
    (ran : s₁.exec id (.update stmt) = .ok s₂) (committed : s₂.commit order id = .ok s₃) :
    s₃.storage = s₂.storage ∧
      s₂.storage.rows stmt.table = (s.storage.rows stmt.table).map (updatedRow stmt) ∧
      s₃.manager.records.map LogRecord.content =
        txnLog order id ⟨true, updateLog stmt (s.storage.rows stmt.table)⟩ := by
  cases begun
  obtain ⟨isNext, next, known, hasWal, contents, given⟩ := begin_ready (ready_of_fresh fresh) rfl
  obtain ⟨rows, known', frame⟩ := exec_update known rfl ran
  cases (commit_eq_ok known' rfl).symm.trans committed
  refine ⟨rfl, rows, ?_⟩
  have noRecords : s.manager.records = [] := by
    rw [fresh]
    exact unused
  have logs := logOutcome_logs order (Transaction.extend { id := s.manager.nextId }
    (updateLog stmt (s.storage.rows stmt.table))) s.manager.nextId .commit (frame.wal ▸ hasWal)
  have before : s₂.manager.records.map LogRecord.content =
      [{ txnId := s.manager.nextId, type := .begin }] := by
    rw [← isNext, noRecords] at contents
    unfold TransactionManager.records
    rw [frame.wal]
    exact contents
  refine logs.contents.trans ?_
  rw [before]
  rfl

/-- **When recovery rebuilds an updated table**: when every new row is read back from its text, and
every id a matched row gives up is given to a matched row. -/
theorem recover_update_iff {wal : Wal} (fresh : s.manager = { wal := some wal })
    (unused : wal.appended = []) (keyed : Keyed Row.id? (s.storage.rows stmt.table))
    (begun : s.begin = (id, s₁)) (ran : s₁.exec id (.update stmt) = .ok s₂)
    (keyed' : Keyed Row.id? (s₂.storage.rows stmt.table))
      (committed : s₂.commit order id = .ok s₃) :
    ((recoverFrom s₃.manager.records s.storage).rows stmt.table).Perm (s₃.storage.rows stmt.table) ↔
      (∀ row ∈ s.storage.rows stmt.table, matchesWhere stmt.where? row = true →
        FaithfulText (applyAssignments stmt.assignments row)) ∧
      ∀ row ∈ s.storage.rows stmt.table, matchesWhere stmt.where? row = true →
        ∃ row' ∈ s.storage.rows stmt.table, matchesWhere stmt.where? row' = true ∧
          (applyAssignments stmt.assignments row').id? = row.id? := by
  obtain ⟨sameStorage, rows, contents⟩ := log_update fresh unused begun ran committed
  rw [rows] at keyed'
  have parts := map_ite_perm (applyAssignments stmt.assignments) (matchesWhere stmt.where?)
    (s.storage.rows stmt.table)
  have news : Keyed Row.id? (((s.storage.rows stmt.table).filter (matchesWhere stmt.where?)).map
      (applyAssignments stmt.assignments)) :=
    (keyed'.perm parts).sublist (List.sublist_append_left ..)
  have log : (updateLog stmt (s.storage.rows stmt.table)).map (WriteRecord.readBack order) =
      readUpdates order stmt ((s.storage.rows stmt.table).filter (matchesWhere stmt.where?)) :=
    List.map_map
  rw [← recoverFrom_content, contents, recoverFrom_eq_writes, committedIds_txnLog, if_pos rfl,
    writesWhere_txnLog_readBack, writesWhere_txnLog_readBack, if_pos (List.mem_singleton_self id),
    if_neg fun absent => absent (List.mem_singleton_self id), List.foldr_nil,
      sameStorage, rows, log]
  by_cases faithful : ∀ row ∈ s.storage.rows stmt.table, matchesWhere stmt.where? row = true →
      FaithfulText (applyAssignments stmt.assignments row)
  · rw [rows_redo_updates news (fun row member => faithful row (List.mem_filter.mp member).1
      (List.mem_filter.mp member).2) keyed, and_iff_right faithful]
    exact upsertAll_perm_iff keyed keyed'
  · refine iff_of_false (fun same => ?_) fun both => faithful both.1
    push Not at faithful
    obtain ⟨row, member, hit, unfaithful⟩ := faithful
    obtain ⟨lost, matched, gone⟩ := @redo_updates_loses stmt order _ news
      ⟨row, List.mem_filter.mpr ⟨member, hit⟩, unfaithful⟩ _ keyed
    exact gone (same.mem_iff.mpr (parts.mem_iff.mpr
      (List.mem_append_left _ (List.mem_map_of_mem matched))))

/-- A row that names the `id` it is to get. -/
def numberedRow (key next : String) : Row := (idRow key).insert (str "next") (str next)

/-- `UPDATE users SET id = next`. -/
def renumber : UpdateStatement where
  table := str "users"
  assignments := [(idColumn, .columnRef [] (str "next"))]
  where? := none

/-- A new manager with a log on a new file, and a table `users`. -/
def numberedSession (rows : List Row) : Session where
  manager := freshSession.manager
  storage := freshSession.storage.setRows (str "users") rows

theorem recover_update_iff_swapped : ∃ s₃ : Session,
    ((recoverFrom s₃.manager.records
        (numberedSession [numberedRow "1" "2", numberedRow "2" "1"]).storage).rows
          (str "users")).Perm (s₃.storage.rows (str "users")) ↔
      (∀ row ∈ (numberedSession [numberedRow "1" "2", numberedRow "2" "1"]).storage.rows
          (str "users"), matchesWhere renumber.where? row = true →
          FaithfulText (applyAssignments renumber.assignments row)) ∧
      ∀ row ∈ (numberedSession [numberedRow "1" "2", numberedRow "2" "1"]).storage.rows
          (str "users"), matchesWhere renumber.where? row = true →
          ∃ row' ∈ (numberedSession [numberedRow "1" "2", numberedRow "2" "1"]).storage.rows
              (str "users"), matchesWhere renumber.where? row' = true ∧
              (applyAssignments renumber.assignments row').id? = row.id? :=
  ⟨_, @recover_update_iff renumber default _ _ _ _ _ (Wal.openFile []) rfl rfl (by decide) rfl rfl
    (by decide) rfl⟩

/-- **A row that was given a new id survives recovery under its old one.** -/
theorem recover_update_keeps_old :
    ¬ ∀ (order : RowOrder) (s s₁ s₂ s₃ : Session) (id : TxnId) (wal : Wal) (stmt : UpdateStatement),
      s.manager = { wal := some wal } → wal.appended = [] →
      Keyed Row.id? (s.storage.rows stmt.table) →
      (∀ row ∈ s.storage.rows stmt.table, PlainValues row) →
      s.begin = (id, s₁) → s₁.exec id (.update stmt) = .ok s₂ →
      Keyed Row.id? (s₂.storage.rows stmt.table) →
      (∀ row ∈ s₂.storage.rows stmt.table, PlainValues row) → s₂.commit order id = .ok s₃ →
      ((recoverFrom s₃.manager.records s.storage).rows stmt.table).Perm
        (s₃.storage.rows stmt.table) := by
  intro claim
  have recovered :=
    claim default (numberedSession [numberedRow "1" "2"]) _ _ _ _ (Wal.openFile []) renumber
    rfl rfl (by decide) (by decide) rfl rfl (by decide) (by decide) rfl
  exact absurd recovered.length_eq (by decide)

end Session

end MyDb
