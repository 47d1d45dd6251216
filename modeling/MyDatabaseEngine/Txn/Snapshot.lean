/-
**What a snapshot shows.**

A snapshot decides visibility by comparing ids. `snapshot_shows_committed_iff`: at any point of any
run, for the transaction that begins there, that agrees with the commit status of the version's
creator and deleter if and only if neither of them, when it decides, is a transaction with a smaller
id that has not committed. An id is smaller exactly when its transaction began earlier; whether it
committed, was rolled back or is still running does not show in it.

`Shows` is what the documentation promises, in terms of commit status at the moment of the begin.
Creator and deleter are any ids: 0 for a version that was not deleted, ids not given yet, and the
snapshot's own, whose writes it sees either way.
-/

import MyDatabaseEngine.Exec.Operator
import MyDatabaseEngine.Txn.Calls

namespace MyDb

/-- The transaction began before this point, and has not committed. -/
def TransactionManager.Uncommitted (m : TransactionManager) (id : TxnId) : Prop :=
  id < m.nextId ∧ ¬ m.HasCommitted id

/-- **What a snapshot of transaction `t` is to show**: the versions whose creator is `t` or had
committed, unless their deleter is `t` or had committed. -/
def TransactionManager.Shows (m : TransactionManager) (t : TxnId) (version : VersionedRow) : Prop :=
  (version.createdBy = t ∨ m.HasCommitted version.createdBy) ∧
    ¬ (version.deletedBy ≠ 0 ∧ (version.deletedBy = t ∨ m.HasCommitted version.deletedBy))

section Visibility

theorem isVisible_iff {t : TxnId} {version : VersionedRow} :
    (MvccSnapshot.mk t).isVisible version = true ↔
      version.createdBy ≤ t ∧ (version.deletedBy = 0 ∨ t < version.deletedBy) := by
  simp [MvccSnapshot.isVisible]

/-- The comparison of ids against the commit statuses, for a creator and a deleter whose commit
implies a smaller id. -/
theorem ids_tell_iff {creator deleter t : Nat} {created deleted : Prop}
    (earlier : created → creator < t) (earlier' : deleted → deleter < t) :
    ((creator ≤ t ∧ (deleter = 0 ∨ t < deleter) ↔
        (creator = t ∨ created) ∧ ¬ (deleter ≠ 0 ∧ (deleter = t ∨ deleted))) ↔
      (creator < t ∧ ¬ created → deleter ≠ 0 ∧ deleter ≤ t) ∧
        (creator = t ∨ created → deleter ≠ 0 → ¬ (deleter < t ∧ ¬ deleted))) := by
  by_cases isCreated : created <;> by_cases isDeleted : deleted <;> grind

/-- **When a snapshot shows the committed versions.** At any point of a run, for the transaction
that begins there: a creator with a smaller id that has not committed does not matter only when the
version's deleter hides it anyway, and the deleter of any other version of a committed creator, or
of the transaction itself, must not be a transaction with a smaller id that has not committed. -/
theorem snapshot_shows_committed_iff {order : RowOrder} {s s' s'' : Session} {wal : Option Wal}
    {calls : List SessionCall} {t : TxnId} (fresh : s.manager = { wal })
    (run : CallRun order s calls s') (begun : s'.begin = (t, s'')) (version : VersionedRow) :
    ((MvccSnapshot.mk t).isVisible version = true ↔ s'.manager.Shows t version) ↔
      (s'.manager.Uncommitted version.createdBy →
        version.deletedBy ≠ 0 ∧ version.deletedBy ≤ t) ∧
      (version.createdBy = t ∨ s'.manager.HasCommitted version.createdBy →
        version.deletedBy ≠ 0 → ¬ s'.manager.Uncommitted version.deletedBy) := by
  have start : s.manager.IdsGiven := by
    rw [fresh]
    exact fun id member => absurd member (Finmap.notMem_empty)
  have given : s'.manager.IdsGiven := run.keeps ManagerStep.idsGiven start
  cases begun
  rw [isVisible_iff]
  exact ids_tell_iff given.lt_of_hasCommitted given.lt_of_hasCommitted

end Visibility

/-! ### A transaction that has not committed -/

section Witness

/-- A version written by transaction 1. -/
def versionByFirst : VersionedRow := { data := idRow "1", createdBy := 1, deletedBy := 0 }

/-- Transaction 1 began and committed; transaction 2 begins. -/
theorem snapshot_shows_committed_iff_second : ∃ s' s'' : Session,
    CallRun default freshSession [.begin, .commit 1] s' ∧ s'.begin = (2, s'') ∧
    (((MvccSnapshot.mk 2).isVisible versionByFirst = true ↔ s'.manager.Shows 2 versionByFirst) ↔
      (s'.manager.Uncommitted versionByFirst.createdBy →
        versionByFirst.deletedBy ≠ 0 ∧ versionByFirst.deletedBy ≤ 2) ∧
      (versionByFirst.createdBy = 2 ∨ s'.manager.HasCommitted versionByFirst.createdBy →
        versionByFirst.deletedBy ≠ 0 → ¬ s'.manager.Uncommitted versionByFirst.deletedBy)) := by
  have run : CallRun default freshSession [.begin, .commit 1] _ :=
    .cons (.begin _) (.cons (.commit _ 1) (.nil _))
  exact ⟨_, _, run, rfl, snapshot_shows_committed_iff rfl run rfl versionByFirst⟩

/-- **A snapshot shows a version whose creator is still running.** -/
theorem snapshot_shows_uncommitted :
    ¬ ∀ (order : RowOrder) (s s' s'' : Session) (wal : Option Wal) (calls : List SessionCall)
      (t : TxnId) (version : VersionedRow), s.manager = { wal } → CallRun order s calls s' →
      s'.begin = (t, s'') →
      ((MvccSnapshot.mk t).isVisible version = true ↔ s'.manager.Shows t version) := by
  intro claim
  have run : CallRun default freshSession [.begin] _ := .cons (.begin _) (.nil _)
  have shows :=
    (claim default freshSession _ _ _ [.begin] 2 versionByFirst rfl run rfl).mp (by decide)
  rcases shows.1 with own | ⟨txn, known, committed⟩
  · exact absurd own (by decide)
  · cases known
    cases committed

end Witness

end MyDb
