/-
**Queries under a snapshot.**

A `SeqScan` under a snapshot hands out the visible versions (`rest_seqScanVersions`). The versions
that `Executor::build` hands it are the stored rows, each as created by transaction 1 and not
deleted. So a snapshot shows all rows of now or none (`execute_snapshot`), and the snapshot of a
transaction shows whatever others have written since it began, committed or not
(`query_ignores_snapshot`).

The ids that `begin` gives are positive (`IdsPositive` is kept by every call of the manager), and
version 1 is visible to every positive id. That is all a query's snapshot is asked, so the answer is
that of the query without one, on the storage as it is when the query runs.
-/

import MyDatabaseEngine.Exec.BuiltPlans
import MyDatabaseEngine.Txn.Calls

namespace MyDb

open PullIterator

/-! ### Scans -/

section Scans

open Operator

variable {snapshot : MvccSnapshot} {versions : List VersionedRow}

/-- The loop of `next` takes the first visible version. -/
theorem filter_nextVisible (versions : List VersionedRow) (cursor : Nat) :
    (versions.filter snapshot.isVisible).map VersionedRow.data =
      match nextVisible snapshot versions cursor with
      | (none, _) => []
      | (some row, cursor') =>
        row :: ((versions.drop (cursor' - cursor)).filter snapshot.isVisible).map
          VersionedRow.data := by
  induction versions generalizing cursor with
  | nil => rfl
  | cons version rest ih =>
    rw [nextVisible]
    by_cases visible : snapshot.isVisible version = true
    · rw [if_pos visible, List.filter_cons_of_pos visible, List.map_cons]
      simp
    · rw [if_neg visible, List.filter_cons_of_neg visible, ih (cursor + 1)]
      rcases found : nextVisible snapshot rest (cursor + 1) with ⟨row?, cursor'⟩
      cases row? with
      | none => rfl
      | some row =>
        have moved := (nextVisible_cursor found).1
        have one : cursor' - cursor = (cursor' - (cursor + 1)) + 1 := by omega
        dsimp only
        rw [one, List.drop_succ_cons]

/-- **A scan under a snapshot hands out the visible versions**, in order. -/
theorem rest_seqScanVersions (versions : List VersionedRow) (snapshot : MvccSnapshot)
    (cursor : Nat) :
    (seqScanVersions versions snapshot).rest cursor =
      ((versions.drop cursor).filter snapshot.isVisible).map VersionedRow.data := by
  refine rest_unique (seqScanVersions versions snapshot)
    (fun cursor : Nat => ((versions.drop cursor).filter snapshot.isVisible).map VersionedRow.data)
    (fun (cursor cursor' : Nat) done => ?_) (fun (cursor : Nat) row (cursor' : Nat) pulled => ?_)
      cursor
  · change nextVisible snapshot (versions.drop cursor) cursor = _ at done
    rw [filter_nextVisible _ cursor, done]
  · change nextVisible snapshot (versions.drop cursor) cursor = _ at pulled
    have moved := (nextVisible_cursor pulled).1
    have back : cursor + (cursor' - cursor) = cursor' := by omega
    rw [filter_nextVisible _ cursor, pulled]
    dsimp only
    rw [List.drop_drop, back]

end Scans

/-! ### Plans -/

section Plans

variable {stdSort : StdSort Row} {storage : TableStorage} {snapshot : MvccSnapshot}
  {plan : PhysicalPlan}

/-- **The tables a snapshot shows**: as they are, or without any row. -/
def MvccSnapshot.tables (snapshot : MvccSnapshot) (storage : TableStorage) : TableStorage :=
  if 1 ≤ snapshot.snapshotId then storage else ∅

theorem isVisible_stored (row : Row) :
    snapshot.isVisible { data := row, createdBy := 1, deletedBy := 0 } =
      decide (1 ≤ snapshot.snapshotId) := by
  simp [MvccSnapshot.isVisible]

/-- The visible ones of the stored rows. -/
theorem visible_stored {tableName : Str} {rows : List Row}
    (found : storage.lookup tableName = some rows) :
    ((rows.map fun row => (⟨row, 1, 0⟩ : VersionedRow)).filter snapshot.isVisible).map
      VersionedRow.data =
      (snapshot.tables storage).rows tableName := by
  have same : (snapshot.isVisible ∘ fun row => (⟨row, 1, 0⟩ : VersionedRow)) =
      fun _ => decide (1 ≤ snapshot.snapshotId) := funext isVisible_stored
  rw [List.filter_map, List.map_map, same]
  unfold MvccSnapshot.tables
  by_cases shown : 1 ≤ snapshot.snapshotId
  · rw [if_pos shown, TableStorage.rows_of_lookup found]
    simp [shown, Function.comp_def]
  · rw [if_neg shown]
    simp [shown]
    rfl

/-- **The operator of a plan under a snapshot yields the plan's rows over the tables shown**, from
whatever state. -/
theorem build_snapshot_denotes {op : Operator}
    (built : Executor.build stdSort storage (some snapshot) plan = .ok op) :
    ∀ s : op.State, op.rest (op.reset s) = denote stdSort (snapshot.tables storage) plan := by
  refine @Executor.build_induction stdSort storage (some snapshot)
    (fun plan op => ∀ s : op.State,
      op.rest (op.reset s) = denote stdSort (snapshot.tables storage) plan)
    ?seqScan ?filter ?projection ?sort ?limit ?hashJoin plan op built
  case seqScan =>
    intro tableName op built s
    rw [Executor.build] at built
    split at built
    · cases built
    · rename_i rows found
      cases built
      exact (rest_seqScanVersions _ snapshot 0).trans (visible_stored found)
  case filter =>
    exact fun predicate child op ih s =>
      (Operator.rest_filter op predicate _).trans (congrArg (List.filter _) (ih s))
  case projection =>
    exact fun columns child op ih s =>
      (Operator.rest_projection op columns _).trans (congrArg (List.map _) (ih s))
  case sort =>
    intro orderBy child op ih s
    refine (Operator.rest_sort stdSort op orderBy _).trans ?_
    rw [denote, ← ih s.child]
    rfl
  case limit =>
    intro count child op ih s
    refine (Operator.rest_limit op count _).trans ?_
    rw [denote, ← ih s.1]
    show (op.rest (op.reset s.1)).take (count - 0).toNat = _
    rw [sub_zero]
  case hashJoin =>
    intro buildKey probeKey buildPlan probePlan buildOp probeOp ihBuild ihProbe s
    rw [denote, ← ihProbe s.probe, ← ihBuild s.build]
    exact Operator.rest_reset_hashJoin buildOp probeOp buildKey probeKey s

/-- Without rows a plan has none. -/
theorem denote_empty (plan : PhysicalPlan) : denote stdSort ∅ plan = [] := by
  induction plan with
  | seqScan tableName => rfl
  | filter predicate child ih => rw [denote, ih, List.filter_nil]
  | projection columns child ih => rw [denote, ih, List.map_nil]
  | sort orderBy child ih =>
    have nothing : StrictWeakOn (Operator.rowLess orderBy) [] :=
      ⟨fun _ member => absurd member List.not_mem_nil,
        fun _ member => absurd member List.not_mem_nil,
        fun _ member => absurd member List.not_mem_nil⟩
    rw [denote, ih]
    exact (stdSort.sorts _ _ nothing).1.eq_nil
  | limit count child ih => rw [denote, ih, List.take_nil]
  | hashJoin buildKey probeKey build probe ihBuild ihProbe => rw [denote, ihProbe, List.flatMap_nil]

/-- **A query under a snapshot** is the query without one, or fails like it, or finds nothing. -/
theorem execute_snapshot (stdSort : StdSort Row) (storage : TableStorage) (snapshot : MvccSnapshot)
    (plan : PhysicalPlan) :
    Executor.execute stdSort storage (some snapshot) plan =
      (Executor.execute stdSort storage none plan).map fun rows =>
        if 1 ≤ snapshot.snapshotId then rows else [] := by
  have withSnapshot := @Executor.build_eq stdSort storage (some snapshot) plan
  have without := @Executor.build_eq stdSort storage none plan
  unfold Executor.execute
  cases missing : plan.tables.find? fun table => (storage.lookup table).isNone with
  | some table =>
    rw [missing] at withSnapshot without
    rw [withSnapshot, without]
    rfl
  | none =>
    rw [missing] at withSnapshot without
    obtain ⟨op, built⟩ := withSnapshot
    obtain ⟨op', built'⟩ := without
    rw [built, built']
    show Except.ok (op.rest (op.reset op.start)) =
      Except.ok (if 1 ≤ snapshot.snapshotId then op'.rest (op'.reset op'.start) else [])
    rw [build_snapshot_denotes built, Operator.build_denotes stdSort storage plan op' built']
    unfold MvccSnapshot.tables
    split
    · rfl
    · rw [denote_empty]

end Plans

/-! ### Transactions -/

section Transactions

/-- Ids begin at 1. -/
def TransactionManager.IdsPositive (m : TransactionManager) : Prop :=
  1 ≤ m.nextId ∧ ∀ id ∈ m.transactions, 1 ≤ id

theorem ManagerStep.idsPositive {order : RowOrder} {m m' : TransactionManager}
    (step : ManagerStep order m m') (positive : m.IdsPositive) : m'.IdsPositive := by
  have inserted : ∀ {id : TxnId} {txn : Transaction}, 1 ≤ id →
      ∀ other ∈ m.transactions.insert id txn, 1 ≤ other := by
    intro id txn isPositive other member
    rcases Finmap.mem_insert.mp member with rfl | old
    · exact isPositive
    · exact positive.2 other old
  have known : ∀ {id : TxnId} {txn : Transaction}, m.transactions.lookup id = some txn → 1 ≤ id :=
    fun found => positive.2 _ (Finmap.mem_of_lookup_eq_some found)
  cases step with
  | begin =>
    refine ⟨Nat.le_add_left 1 m.nextId, fun other member => ?_⟩
    change other ∈ (if m.nextId ∈ m.transactions then m.transactions
      else m.transactions.insert m.nextId { id := m.nextId }) at member
    split at member
    · exact positive.2 other member
    · exact inserted positive.1 other member
  | write log found _ => exact ⟨positive.1, inserted (known found)⟩
  | @finish id txn committed found _ =>
    obtain ⟨next, transactions⟩ :=
      close_frame order m txn (txn.finish committed) id (closingType committed)
    refine ⟨?_, ?_⟩
    · rw [next]
      exact positive.1
    · rw [transactions]
      exact inserted (known found)
  | same => exact positive

/-- **A query under the snapshot of a transaction is a query without one**: at any point of any run,
for any transaction that has begun, it answers from the tables as they are at that point. -/
theorem query_ignores_snapshot {order : RowOrder} {s s' : Session} {wal : Option Wal}
    {calls : List SessionCall} {t : TxnId} {txn : Transaction} (stdSort : StdSort Row)
    (fresh : s.manager = { wal }) (run : CallRun order s calls s')
    (known : s'.manager.get t = .ok txn) (plan : PhysicalPlan) :
    Executor.execute stdSort s'.storage (some { snapshotId := t }) plan =
      Executor.execute stdSort s'.storage none plan := by
  have start : s.manager.IdsPositive := by
    rw [fresh]
    exact ⟨le_refl 1, fun id member => absurd member Finmap.notMem_empty⟩
  have positive : s'.manager.IdsPositive := run.keeps ManagerStep.idsPositive start
  have begun : 1 ≤ t := positive.2 t (Finmap.mem_of_lookup_eq_some (get_eq_ok.mp known))
  rw [execute_snapshot]
  simp only [begun, if_true]
  cases Executor.execute stdSort s'.storage none plan <;> rfl

/-- Transaction 1 has begun before transaction 2, which has inserted a row and not committed. -/
theorem query_ignores_snapshot_uncommitted : ∃ s' : Session,
    CallRun default freshSession [.begin, .begin, .exec 2 (insertUser "1")] s' ∧
      Executor.execute default s'.storage (some { snapshotId := 1 }) (.seqScan (str "users")) =
        Executor.execute default s'.storage none (.seqScan (str "users")) := by
  have run : CallRun default freshSession [.begin, .begin, .exec 2 (insertUser "1")] _ :=
    .cons (.begin _) (.cons (.begin _) (.cons (.exec rfl) (.nil _)))
  exact ⟨_, run, @query_ignores_snapshot default freshSession _ _ _ 1 _ default rfl run rfl _⟩

end Transactions

end MyDb
