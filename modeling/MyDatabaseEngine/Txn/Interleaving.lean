/-
**Rolling back one of two interleaved transactions.**

Two active transactions run statements in any interleaving and write no id in common; the first only
inserts and updates. Undoing a fitting insert or update right after it was made gives back the
storage (`undoWrite_applyWrite`), and an undo commutes with every write at another table or id
(`undoWrite_applyWrite_comm`). So at every point of the interleaving, undoing the first
transaction's log leaves the second's writes on the initial storage (`rollback_leaves_other`), row
order included.

The induction is on the interleaving. A write of the first party is undone at once, in front of the
undo of all earlier ones; a write of the second party is passed by the undo of the first one's log.
The write log stands for the statements: what a statement does is what its records do.
-/

import MyDatabaseEngine.Txn.ExactReplay

namespace MyDb

open KeyedList
open TransactionManager (undoWrite)

/-! ### Undo against one write -/

section Undo

variable {storage storage' : TableStorage} {wr wr' : WriteRecord} {log log' : List WriteRecord}

/-- What `undoWrite` does to its table, as operations of a keyed list. -/
theorem undoRows_eq (wr : WriteRecord) (rows : List Row) : undoRows wr rows =
    if wr.type = .insert then erase Row.id? rows wr.key
      else replace Row.id? wr.key wr.oldRow rows := by
  cases type : wr.type <;> simp [undoRows, type, removeKey_eq_erase, restoreFirst_eq_replace]

/-- What `applyWrite` does to its table. -/
def applyRows (wr : WriteRecord) (rows : List Row) : List Row :=
  match wr.type with
  | .insert | .update => upsert Row.id? wr.key wr.newRow rows
  | .delete => erase Row.id? rows wr.key

theorem applyWrite_eq (wr : WriteRecord) (storage : TableStorage) :
    applyWrite wr storage = storage.setRows wr.table (applyRows wr (storage.rows wr.table)) := by
  cases type : wr.type <;> simp [applyWrite, applyRows, type]

/-- **Undoing an insert or update at once.** -/
theorem undoWrite_applyWrite (fits : wr.Fits storage) (notDelete : wr.type ≠ .delete) :
    undoWrite wr (applyWrite wr storage) = storage := by
  obtain ⟨rows, found⟩ := Finmap.mem_iff.mp fits.hasTable
  have stored := TableStorage.rows_of_lookup found
  have newId := fits.hasKey.newRow notDelete
  rw [undoWrite_eq, fits.applyWrite_eq, TableStorage.rows_setRows_self,
    TableStorage.setRows_setRows]
  rw [undoRows_eq]
  cases type : wr.type with
  | insert =>
    have absent := fits.absent type
    unfold TableStorage.rowAt at absent
    dsimp only
    rw [if_pos rfl, erase_concat_self absent newId, stored, TableStorage.setRows_self found]
  | update =>
    have present := fits.found (by simp [type])
    unfold TableStorage.rowAt at present
    dsimp only
    rw [if_neg (by simp), replace_replace present newId, stored, TableStorage.setRows_self found]
  | delete => exact absurd type notDelete

theorem undoRows_applyRows_comm (own : wr.HasKey) (own' : wr'.HasKey) (apart : wr.key ≠ wr'.key)
    (rows : List Row) : undoRows wr (applyRows wr' rows) = applyRows wr' (undoRows wr rows) := by
  -- overwriting with the old row meets the key of neither write elsewhere
  have overwritten : wr.type ≠ .insert → replace Row.id? wr.key wr.oldRow (applyRows wr' rows) =
      applyRows wr' (replace Row.id? wr.key wr.oldRow rows) := by
    intro notInsert
    have oldId := own.oldRow notInsert
    unfold applyRows
    cases type' : wr'.type with
    | insert => exact replace_upsert_comm apart oldId (own'.newRow (by simp [type'])) rows
    | update => exact replace_upsert_comm apart oldId (own'.newRow (by simp [type'])) rows
    | delete => exact (erase_replace_comm apart oldId rows).symm
  have erased : erase Row.id? (applyRows wr' rows) wr.key =
      applyRows wr' (erase Row.id? rows wr.key) := by
    unfold applyRows
    cases type' : wr'.type with
    | insert => exact erase_upsert_comm apart (own'.newRow (by simp [type'])) rows
    | update => exact erase_upsert_comm apart (own'.newRow (by simp [type'])) rows
    | delete => exact erase_erase_comm rows wr'.key wr.key
  rw [undoRows_eq, undoRows_eq]
  by_cases isInsert : wr.type = .insert
  · rw [if_pos isInsert, if_pos isInsert]
    exact erased
  · rw [if_neg isInsert, if_neg isInsert]
    exact overwritten isInsert

/-- **An undo commutes with a write at another table or id.** -/
theorem undoWrite_applyWrite_comm (own : wr.HasKey) (own' : wr'.HasKey)
    (apart : ¬ (wr.table = wr'.table ∧ wr.key = wr'.key)) (storage : TableStorage) :
    undoWrite wr (applyWrite wr' storage) = applyWrite wr' (undoWrite wr storage) := by
  simp only [undoWrite_eq, applyWrite_eq]
  by_cases sameTable : wr.table = wr'.table
  · have keys : wr.key ≠ wr'.key := fun sameKey => apart ⟨sameTable, sameKey⟩
    simp only [sameTable, TableStorage.rows_setRows_self, TableStorage.setRows_setRows,
      undoRows_applyRows_comm own own' keys]
  · rw [TableStorage.rows_setRows, if_neg sameTable, TableStorage.rows_setRows,
      if_neg (Ne.symm sameTable), TableStorage.setRows_comm _ (Ne.symm sameTable)]

/-- Undoing a log after a write it has nothing to do with. -/
theorem undoLog_applyWrite_comm (own : ∀ wr ∈ log, wr.HasKey) (own' : wr'.HasKey)
    (apart : ∀ wr ∈ log, ¬ (wr.table = wr'.table ∧ wr.key = wr'.key)) (storage : TableStorage) :
    log.foldr undoWrite (applyWrite wr' storage) =
      applyWrite wr' (log.foldr undoWrite storage) := by
  induction log with
  | nil => rfl
  | cons wr rest ih =>
    rw [List.foldr_cons, List.foldr_cons, ih (fun w member => own w (List.mem_cons_of_mem _ member))
      fun w member => apart w (List.mem_cons_of_mem _ member)]
    exact undoWrite_applyWrite_comm (own wr List.mem_cons_self) own' (apart wr List.mem_cons_self) _

/-- **Undoing a log after another's writes.** -/
theorem undoLog_applyWrites_comm (own : ∀ wr ∈ log, wr.HasKey) (own' : ∀ wr ∈ log', wr.HasKey)
    (apart : ∀ wr ∈ log, ∀ wr' ∈ log', ¬ (wr.table = wr'.table ∧ wr.key = wr'.key)) :
    ∀ storage : TableStorage, log.foldr undoWrite (applyWrites log' storage) =
      applyWrites log' (log.foldr undoWrite storage) := by
  induction log' with
  | nil => exact fun _ => rfl
  | cons wr' rest ih =>
    intro storage
    unfold applyWrites at ih ⊢
    rw [List.foldl_cons, List.foldl_cons,
      ih (fun w member => own' w (List.mem_cons_of_mem _ member))
      fun w member w' member' => apart w member w' (List.mem_cons_of_mem _ member'),
      undoLog_applyWrite_comm own (own' wr' List.mem_cons_self)
        fun w member => apart w member wr' List.mem_cons_self]

/-- **Undoing a run of inserts and updates.** -/
theorem Writes.undo (writes : Writes storage log storage')
    (noDelete : ∀ wr ∈ log, wr.type ≠ .delete) :
    log.foldr undoWrite storage' = storage := by
  induction writes with
  | nil => rfl
  | cons fits _ ih =>
    rw [List.foldr_cons, ih fun w member => noDelete w (List.mem_cons_of_mem _ member)]
    exact undoWrite_applyWrite fits (noDelete _ List.mem_cons_self)

end Undo

/-! ### Two transactions -/

section Interleaved

/-- Which of the two transactions a statement belongs to. -/
inductive Party
  | rolledBack
  | other
  deriving DecidableEq, Repr

/-- **Statements of two transactions in any interleaving.** The first makes no DELETE, no UPDATE
assigns `id`, and the storage is well-keyed after each statement. -/
inductive Interleaved (first second : TxnId) : Session → List (Party × DmlStatement) →
    Session → Prop
  | nil (s : Session) : Interleaved first second s [] s
  | rolledBack {s s' s'' : Session} {stmt : DmlStatement} {rest : List (Party × DmlStatement)} :
      stmt.kind ≠ .delete → stmt.assignsId = false → s.exec first stmt = .ok s' →
      s'.storage.WellKeyed → Interleaved first second s' rest s'' →
        Interleaved first second s ((.rolledBack, stmt) :: rest) s''
  | other {s s' s'' : Session} {stmt : DmlStatement} {rest : List (Party × DmlStatement)} :
      stmt.assignsId = false → s.exec second stmt = .ok s' →
      s'.storage.WellKeyed → Interleaved first second s' rest s'' →
        Interleaved first second s ((.other, stmt) :: rest) s''

/-- The two logs write no id in common. -/
def Apart (log log' : List WriteRecord) : Prop :=
  ∀ wr ∈ log, ∀ wr' ∈ log', ¬ (wr.table = wr'.table ∧ wr.key = wr'.key)

instance (log log' : List WriteRecord) : Decidable (Apart log log') :=
  inferInstanceAs (Decidable (∀ wr ∈ log, ∀ wr' ∈ log', _))

variable {first second : TxnId} {s s' : Session} {stmts : List (Party × DmlStatement)}

/-- **Undoing the first log leaves the second's writes**, from any point where it does so far. -/
theorem interleaved_undo (run : Interleaved first second s stmts s') (different : first ≠ second) :
    ∀ {txn txn' : Transaction}, s.manager.get first = .ok txn → txn.active = true →
      s.manager.get second = .ok txn' → txn'.active = true → s.storage.WellKeyed →
      (∀ wr ∈ txn.writeLog, wr.HasKey) →
      ∃ log log', s'.manager.get first = .ok (txn.extend log) ∧
        s'.manager.get second = .ok (txn'.extend log') ∧
        ∀ initial : TableStorage, Apart (txn.writeLog ++ log) log' →
          txn.writeLog.foldr undoWrite s.storage = applyWrites txn'.writeLog initial →
          (txn.writeLog ++ log).foldr undoWrite s'.storage =
            applyWrites (txn'.writeLog ++ log') initial := by
  induction run with
  | nil s =>
    intro txn txn' known _ known' _ _ _
    refine ⟨[], [], by rw [known, Transaction.extend_nil], by rw [known', Transaction.extend_nil],
      fun initial _ undone => ?_⟩
    rw [List.append_nil, List.append_nil]
    exact undone
  | @rolledBack s s₁ s₂ stmt rest notDelete keepsId done keyed₁ _ ih =>
    intro txn txn' known active known' active' keyed own
    obtain ⟨log, known₁, frame, writes, kinds, _⟩ :=
      exec_writes known active keepsId keyed keyed₁ done
    have known₁' : s₁.manager.get second = .ok txn' := by
      rw [get_eq_ok, frame.others second (Ne.symm different)]
      exact get_eq_ok.mp known'
    obtain ⟨more, log', known₂, known₂', undone⟩ := ih known₁ active known₁' active' keyed₁
      fun wr member => (List.mem_append.mp member).elim (own wr) (writes.hasKey wr)
    refine ⟨log ++ more, log', ?_, known₂', fun initial apart soFar => ?_⟩
    · rw [known₂]
      simp [Transaction.extend]
    · rw [← List.append_assoc] at apart ⊢
      refine undone initial apart ?_
      show (txn.writeLog ++ log).foldr undoWrite s₁.storage = _
      rw [List.foldr_append, writes.undo fun wr member => kinds wr member ▸ notDelete]
      exact soFar
  | @other s s₁ s₂ stmt rest keepsId done keyed₁ _ ih =>
    intro txn txn' known active known' active' keyed own
    obtain ⟨log', known₁', frame, writes, _, _⟩ :=
      exec_writes known' active' keepsId keyed keyed₁ done
    have known₁ : s₁.manager.get first = .ok txn := by
      rw [get_eq_ok, frame.others first different]
      exact get_eq_ok.mp known
    obtain ⟨log, more, known₂, known₂', undone⟩ := ih known₁ active known₁' active' keyed₁ own
    refine ⟨log, log' ++ more, known₂, ?_, fun initial apart soFar => ?_⟩
    · rw [known₂']
      simp [Transaction.extend]
    · rw [← List.append_assoc]
      refine undone initial (fun wr member wr' member' =>
        apart wr member wr' (List.mem_append_right _ member')) ?_
      have apartHere : Apart txn.writeLog log' := fun wr member wr' member' =>
        apart wr (List.mem_append_left _ member) wr' (List.mem_append_left _ member')
      rw [writes.eq_applyWrites, undoLog_applyWrites_comm own writes.hasKey apartHere, soFar]
      exact (List.foldl_append ..).symm

/-- **Rolling back the first transaction leaves the second's.** At any point of the interleaving,
rollback gives exactly the initial storage with the second transaction's recorded writes applied in
order. -/
theorem rollback_leaves_other {order : RowOrder} (different : first ≠ second)
    (begun : s.manager.get first = .ok { id := first })
    (begun' : s.manager.get second = .ok { id := second }) (keyed : s.storage.WellKeyed)
    (run : Interleaved first second s stmts s') {txn txn' : Transaction}
    (known : s'.manager.get first = .ok txn) (known' : s'.manager.get second = .ok txn')
    (apart : Apart txn.writeLog txn'.writeLog) :
    ∃ s'', s'.rollback order first = .ok s'' ∧
      s''.storage = applyWrites txn'.writeLog s.storage := by
  obtain ⟨log, log', after, after', undone⟩ :=
    interleaved_undo run different begun rfl begun' rfl keyed
    fun _ member => absurd member List.not_mem_nil
  cases known.symm.trans after
  cases known'.symm.trans after'
  exact ⟨_, rollback_eq_ok known rfl, undone s.storage apart rfl⟩

/-- Two transactions that have begun, on a table with one row. -/
def twoBegun : Session where
  manager :=
    { nextId := 3
      transactions :=
        ((∅ : Finmap fun _ : TxnId => Transaction).insert 1 { id := 1 }).insert 2 { id := 2 } }
  storage := (∅ : TableStorage).insert (str "users") [idRow "1"]

theorem rollback_leaves_other_delete : ∃ s' s'' txn',
    Interleaved 1 2 twoBegun
      [(.other, deleteUsers), (.rolledBack, insertUser "2"), (.other, insertUser "3")] s' ∧
    s'.manager.get 2 = .ok txn' ∧ s'.rollback default 1 = .ok s'' ∧
      s''.storage = applyWrites txn'.writeLog twoBegun.storage := by
  have run : Interleaved 1 2 twoBegun
      [(.other, deleteUsers), (.rolledBack, insertUser "2"), (.other, insertUser "3")] _ :=
    .other (by decide) rfl (by decide) (.rolledBack (by decide) (by decide) rfl (by decide)
      (.other (by decide) rfl (by decide) (.nil _)))
  obtain ⟨s'', done, storage⟩ := @rollback_leaves_other 1 2 twoBegun _ _ default (by decide) rfl rfl
    (by decide) run _ _ rfl rfl (by decide)
  exact ⟨_, s'', _, run, rfl, done, storage⟩

end Interleaved

end MyDb
