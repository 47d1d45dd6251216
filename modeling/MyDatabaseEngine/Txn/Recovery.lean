/-
**Recovery after a serial run.**

`rowAt_recoverRun` computes what recovery makes of a run's whole log, row by row, and
`rowAt_recoverCut` of a log that was cut off. From these:

* `recover_committed_iff`: recovery shows the committed transactions' writes, and nothing else,
  exactly when undoing the rolled-back ones does no harm to a row the committed ones leave.
  Rolled-back transactions were already undone when they ended, and recovery undoes them a second
  time, after all committed work was redone.
* `recover_cut_iff`: when every transaction commits, recovery from a log cut at a record boundary
  gives the storage after the last complete transaction exactly when the cut one inserts no id held
  there.
-/

import MyDatabaseEngine.Txn.RunLog
import MyDatabaseEngine.Txn.Replay

namespace MyDb

open KeyedList VersionHistory
open TransactionManager (undoWrite)
open TableStorage (sameRows_iff wellKeyed_of_empty rowAt_of_empty)

/-! ### The writes of a run -/

section Writes

/-- The writes of the committed transactions, in commit order. -/
def committedWrites (history : List TxnHistory) : List WriteRecord :=
  (history.filter fun h => h.committed).flatMap TxnHistory.writes

/-- The writes of the transactions that were rolled back, in log order. -/
def rolledBackWrites (history : List TxnHistory) : List WriteRecord :=
  (history.filter fun h => !h.committed).flatMap TxnHistory.writes

theorem committedWrites_cons (h : TxnHistory) (history : List TxnHistory) :
    committedWrites (h :: history) =
      (if h.committed then h.writes else []) ++ committedWrites history := by
  cases committed : h.committed <;> simp [committedWrites, committed]

theorem rolledBackWrites_cons (h : TxnHistory) (history : List TxnHistory) :
    rolledBackWrites (h :: history) =
      (if h.committed then [] else h.writes) ++ rolledBackWrites history := by
  cases committed : h.committed <;> simp [rolledBackWrites, committed]

/-- **The data records of one transaction decode to its writes**, read back from their texts. -/
theorem writesWhere_dataRecords_readBack {p : TxnId → Prop} [DecidablePred p] (order : RowOrder)
    (id : TxnId) (writes : List WriteRecord) :
    writesWhere p (writes.map (TransactionManager.dataRecord order id)) =
      if p id then writes.map (WriteRecord.readBack order) else [] := by
  induction writes with
  | nil => simp [writesWhere]
  | cons wr rest ih =>
    rw [List.map_cons, writesWhere_cons, ih, write?_dataRecord]
    by_cases holds : p id
    · simp [holds, TransactionManager.dataRecord]
    · simp [holds, TransactionManager.dataRecord]

theorem writesWhere_txnLog_readBack {p : TxnId → Prop} [DecidablePred p] (order : RowOrder)
    (id : TxnId) (h : TxnHistory) :
    writesWhere p (txnLog order id h) =
      if p id then h.writes.map (WriteRecord.readBack order) else [] := by
  have closing : writesWhere p [{ txnId := id, type := if h.committed then .commit else .abort }] =
      [] := by
    rw [writesWhere_cons]
    cases h.committed <;> simp [writesWhere, LogRecord.write?]
  rw [txnLog, writesWhere_cons, writesWhere_append, writesWhere_dataRecords_readBack, closing]
  simp [LogRecord.write?]

theorem map_readBack_of_faithful (order : RowOrder) {writes : List WriteRecord}
    (faithful : ∀ wr ∈ writes, wr.FaithfulImages) :
    writes.map (WriteRecord.readBack order) = writes :=
  (List.map_congr_left fun wr member => readBack_of_faithful order (faithful wr member)).trans
    (List.map_id _)

theorem writesWhere_dataRecords {p : TxnId → Prop} [DecidablePred p] (order : RowOrder) (id : TxnId)
    (writes : List WriteRecord) (faithful : ∀ wr ∈ writes, wr.FaithfulImages) :
    writesWhere p (writes.map (TransactionManager.dataRecord order id)) =
      if p id then writes else [] := by
  rw [writesWhere_dataRecords_readBack, map_readBack_of_faithful order faithful]

theorem writesWhere_txnLog {p : TxnId → Prop} [DecidablePred p] (order : RowOrder) (id : TxnId)
    {h : TxnHistory} (faithful : ∀ wr ∈ h.writes, wr.FaithfulImages) :
    writesWhere p (txnLog order id h) = if p id then h.writes else [] := by
  rw [writesWhere_txnLog_readBack, map_readBack_of_faithful order faithful]

/-- A set of ids tells which transactions of the history committed. -/
def Tells (committed : TxnId → Prop) (id : TxnId) (history : List TxnHistory) : Prop :=
  ∀ i h, history[i]? = some h → (committed (id + i) ↔ h.committed)

theorem Tells.cons {committed : TxnId → Prop} {id : TxnId} {h : TxnHistory}
    {history : List TxnHistory} (tells : Tells committed id (h :: history)) :
    (committed id ↔ h.committed) ∧ Tells committed (id + 1) history := by
  refine ⟨tells 0 h rfl, fun i h' found => ?_⟩
  rw [Nat.add_assoc, Nat.add_comm 1 i]
  exact tells (i + 1) h' found

/-- **The log of a run, read back**: the writes of the transactions that committed, and the writes
of those that did not. -/
theorem writesWhere_runLog {committed : TxnId → Prop} [DecidablePred committed] (order : RowOrder)
    {history : List TxnHistory}
    (faithful : ∀ h ∈ history, ∀ wr ∈ h.writes, wr.FaithfulImages) :
    ∀ {id : TxnId}, Tells committed id history →
      writesWhere committed (runLog order id history) = committedWrites history ∧
      writesWhere (fun id => ¬ committed id) (runLog order id history) =
        rolledBackWrites history := by
  induction history with
  | nil => exact fun _ => ⟨rfl, rfl⟩
  | cons h rest ih =>
    intro id tells
    obtain ⟨head, tail⟩ := tells.cons
    obtain ⟨restCommitted, restRolledBack⟩ :=
      ih (fun h' member => faithful h' (List.mem_cons_of_mem _ member)) tail
    have own := faithful h List.mem_cons_self
    rw [runLog, writesWhere_append, writesWhere_append, writesWhere_txnLog order id own,
      writesWhere_txnLog order id own, restCommitted, restRolledBack, committedWrites_cons,
      rolledBackWrites_cons]
    simp only [head, ite_not, and_self]

theorem writesWhere_content {p : TxnId → Prop} [DecidablePred p] (records : List LogRecord) :
    writesWhere p (records.map LogRecord.content) = writesWhere p records := by
  unfold writesWhere
  rw [List.filter_map, List.filterMap_map]
  rfl

/-- An Insert among the writes is an Insert record. -/
theorem exists_insert_writesWhere {p : TxnId → Prop} [DecidablePred p] {records : List LogRecord}
    {table key : Str} :
    (∃ wr ∈ writesOn table key (writesWhere p records), wr.type = .insert) ↔
      ∃ rec ∈ records, p rec.txnId ∧ rec.type = .insert ∧ rec.table = table ∧ rec.key = key := by
  constructor
  · rintro ⟨wr, member, isInsert⟩
    obtain ⟨inWrites, rfl, rfl⟩ := mem_writesOn.mp member
    obtain ⟨rec, inRecords, decodes⟩ := List.mem_filterMap.mp inWrites
    obtain ⟨inside, holds⟩ := List.mem_filter.mp inRecords
    refine ⟨rec, inside, by simpa using holds, ?_⟩
    cases type : rec.type <;> simp only [LogRecord.write?, type, Option.some.injEq, reduceCtorEq]
      at decodes
    all_goals subst decodes
    · cases isInsert
    · exact ⟨rfl, rfl, rfl⟩
    · cases isInsert
  · rintro ⟨rec, member, holds, isInsert, rfl, rfl⟩
    have decodes : rec.write? = some {
        type := .insert, table := rec.table, key := rec.key
        oldRow := deserializeRow rec.oldValue, newRow := deserializeRow rec.newValue } := by
      simp only [LogRecord.write?, isInsert]
    exact ⟨_, mem_writesOn.mpr ⟨List.mem_filterMap.mpr ⟨rec, List.mem_filter.mpr
      ⟨member, by simpa using holds⟩, decodes⟩, rfl, rfl⟩, rfl⟩

theorem committedIds_append (records records' : List LogRecord) :
    committedIds (records ++ records') = committedIds records ++ committedIds records' := by
  simp [committedIds]

theorem committedIds_dataRecords (order : RowOrder) (id : TxnId) (writes : List WriteRecord) :
    committedIds (writes.map (TransactionManager.dataRecord order id)) = [] := by
  simp only [committedIds, List.map_eq_nil_iff, List.filter_eq_nil_iff, List.mem_map]
  rintro _ ⟨wr, _, rfl⟩
  cases type : wr.type <;> simp [TransactionManager.dataRecord, type]

theorem committedIds_txnLog (order : RowOrder) (id : TxnId) (h : TxnHistory) :
    committedIds (txnLog order id h) = if h.committed then [id] else [] := by
  have begins : committedIds [{ txnId := id, type := .begin }] = [] := rfl
  have closes : committedIds [{ txnId := id, type := if h.committed then .commit else .abort }] =
      if h.committed then [id] else [] := by
    cases h.committed <;> rfl
  rw [txnLog, ← List.singleton_append, committedIds_append, committedIds_append, begins,
    committedIds_dataRecords, closes]
  rfl

/-- The committed ids of a run's log. -/
theorem mem_committedIds_runLog {order : RowOrder} {x : TxnId} (history : List TxnHistory) :
    ∀ id, x ∈ committedIds (runLog order id history) ↔
      ∃ i h, history[i]? = some h ∧ h.committed ∧ x = id + i := by
  induction history with
  | nil => simp [runLog, committedIds]
  | cons h rest ih =>
    intro id
    rw [runLog, committedIds_append, List.mem_append, committedIds_txnLog, ih]
    constructor
    · rintro (member | ⟨i, h', found, committed, rfl⟩)
      · split at member
        · rename_i committed
          exact ⟨0, h, rfl, committed, List.mem_singleton.mp member⟩
        · cases member
      · exact ⟨i + 1, h', found, committed, Nat.succ_add_eq_add_succ id i⟩
    · rintro ⟨i, h', found, committed, rfl⟩
      cases i with
      | zero =>
        cases found
        exact Or.inl (by simp [committed])
      | succ i => exact Or.inr ⟨i, h', found, committed, (Nat.succ_add_eq_add_succ id i).symm⟩

/-- **The Commit records of a run's log tell which of its transactions committed.** -/
theorem tells_committedIds (order : RowOrder) (id : TxnId) (history : List TxnHistory) :
    Tells (· ∈ committedIds (runLog order id history)) id history := by
  intro i h found
  refine (mem_committedIds_runLog history id).trans ⟨?_, ?_⟩
  · rintro ⟨j, h', found', committed, same⟩
    obtain rfl : i = j := Nat.add_left_cancel same
    cases found.symm.trans found'
    exact committed
  · exact fun committed => ⟨i, h, found, committed, rfl⟩

end Writes

/-! ### A whole run -/

section Runs

theorem ready_of_fresh {m : TransactionManager} {wal : Wal} (fresh : m = { wal := some wal }) :
    m.Ready := by
  rw [fresh]
  exact ⟨rfl, fun id member => absurd member (Finmap.notMem_empty)⟩

theorem loggable_of_empty {storage : TableStorage} (empty : storage.Empty) :
    LoggableStorage storage :=
  ⟨wellKeyed_of_empty empty, fun table row member => by rw [empty table] at member; cases member⟩

/-- **A serial run in its log**: its records, and, for a row no rolled-back transaction wrote, the
committed transactions' changes as its history. -/
structure RunOf (order : RowOrder) (s : Session) (history : List TxnHistory) (s' : Session) :
    Prop where
  contents : s'.manager.records.map LogRecord.content =
    s.manager.records.map LogRecord.content ++ runLog order s.manager.nextId history
  ready : s'.manager.Ready
  loggable : LoggableStorage s'.storage
  hasKey : ∀ h ∈ history, ∀ wr ∈ h.writes, wr.HasKey
  faithful : ∀ h ∈ history, ∀ wr ∈ h.writes, wr.FaithfulImages
  runs : ∀ table key, changesOn table key (rolledBackWrites history) = [] →
    Runs (changesOn table key (committedWrites history)) (s.storage.rowAt table key)
      (s'.storage.rowAt table key)

/-- A transaction that committed, or that did not write the row. -/
theorem TxnStep.runs {order : RowOrder} {s s' : Session} {h : TxnHistory}
    (step : TxnStep order s h s') (table key : Str)
    (untouched : changesOn table key (if h.committed then [] else h.writes) = []) :
    Runs (changesOn table key (if h.committed then h.writes else [])) (s.storage.rowAt table key)
      (s'.storage.rowAt table key) := by
  obtain ⟨after, keyed, logOf, storage⟩ := step.logOf
  have runs := logOf.runs table key
  cases committed : h.committed with
  | true =>
    rw [committed, if_pos rfl] at storage
    rw [if_pos rfl, storage]
    exact runs
  | false =>
    rw [committed, if_neg Bool.false_ne_true] at storage untouched
    rw [if_neg Bool.false_ne_true, storage, (rowAt_undoWrites step.hasKey keyed).2, untouched]
    rw [untouched] at runs
    exact runs

theorem serialRun_runOf {order : RowOrder} {s s' : Session} {scripts : List TxnScript}
    {history : List TxnHistory} (run : SerialRun order LoggableStorage s scripts history s')
    (ready : s.manager.Ready) (loggable : LoggableStorage s.storage) :
    RunOf order s history s' := by
  induction history generalizing s scripts with
  | nil =>
    cases run
    exact ⟨by simp [runLog], ready, loggable, by simp, by simp, fun _ _ _ => .nil _⟩
  | cons h rest ih =>
    obtain ⟨script, scripts', s₁, rfl, _, step, more⟩ := serialRun_step run ready loggable
    have later := ih more step.ready step.loggable
    refine ⟨?_, later.ready, later.loggable, ?_, ?_, fun table key untouched => ?_⟩
    · rw [later.contents, step.contents, step.nextId, runLog, List.append_assoc]
    · exact List.forall_mem_cons.mpr ⟨step.hasKey, later.hasKey⟩
    · exact List.forall_mem_cons.mpr ⟨step.faithful, later.faithful⟩
    · rw [rolledBackWrites_cons, changesOn_append, List.append_eq_nil_iff] at untouched
      rw [committedWrites_cons, changesOn_append]
      exact (step.runs table key untouched.1).append (later.runs table key untouched.2)

theorem forall_committedWrites {P : WriteRecord → Prop} {history : List TxnHistory}
    (all : ∀ h ∈ history, ∀ wr ∈ h.writes, P wr) : ∀ wr ∈ committedWrites history, P wr := by
  intro wr member
  obtain ⟨h, inside, write⟩ := List.mem_flatMap.mp member
  exact all h (List.mem_filter.mp inside).1 wr write

theorem forall_rolledBackWrites {P : WriteRecord → Prop} {history : List TxnHistory}
    (all : ∀ h ∈ history, ∀ wr ∈ h.writes, P wr) : ∀ wr ∈ rolledBackWrites history, P wr := by
  intro wr member
  obtain ⟨h, inside, write⟩ := List.mem_flatMap.mp member
  exact all h (List.mem_filter.mp inside).1 wr write

/-- **Recovery from a run's whole log, row by row.** -/
theorem rowAt_recoverRun {order : RowOrder} {s s' : Session} {history : List TxnHistory}
    (run : RunOf order s history s') (unused : s.manager.records = []) {target : TableStorage}
    (emptyTarget : target.Empty) :
    (recoverFrom s'.manager.records target).WellKeyed ∧ ∀ table key,
      (recoverFrom s'.manager.records target).rowAt table key =
        undoAll (changesOn table key (rolledBackWrites history))
          (redoAll (changesOn table key (committedWrites history)) none) := by
  have contents : s'.manager.records.map LogRecord.content =
      runLog order s.manager.nextId history := by
    rw [run.contents, unused]
    rfl
  obtain ⟨redone, undone⟩ := writesWhere_runLog order run.faithful
    (tells_committedIds order s.manager.nextId history)
  rw [← recoverFrom_content, contents]
  have recovered := rowAt_recoverFrom (runLog order s.manager.nextId history)
    (wellKeyed_of_empty emptyTarget)
    (redone ▸ forall_committedWrites run.hasKey) (undone ▸ forall_rolledBackWrites run.hasKey)
  rw [redone, undone] at recovered
  refine ⟨recovered.1, fun table key => ?_⟩
  rw [recovered.2, rowAt_of_empty emptyTarget]

end Runs

/-! ### Rolled-back transactions -/

section RolledBack

/-- A recorded write applied to a storage in which an id names a row. -/
def applyWrite (wr : WriteRecord) (storage : TableStorage) : TableStorage :=
  match wr.type with
  | .insert | .update =>
    storage.setRows wr.table (upsert Row.id? wr.key wr.newRow (storage.rows wr.table))
  | .delete => storage.setRows wr.table (erase Row.id? (storage.rows wr.table) wr.key)

def applyWrites (writes : List WriteRecord) (storage : TableStorage) : TableStorage :=
  writes.foldl (fun storage wr => applyWrite wr storage) storage

theorem applyWrite_acts {wr : WriteRecord} (own : wr.HasKey) :
    ActsAt (applyWrite wr) wr.table wr.key (fun _ => wr.change.put) := by
  cases type : wr.type with
  | delete =>
    refine actsAt_setRows (fun rows => erase Row.id? rows wr.key)
      (fun storage => by simp only [applyWrite, type]) (fun rows keyed => keyed_erase keyed _)
      fun rows _ key' => ?_
    rw [lookup_erase, WriteRecord.change, type]
    rfl
  | insert =>
    have hasId := own.newRow (by simp [type])
    refine actsAt_setRows (upsert Row.id? wr.key wr.newRow)
      (fun storage => by simp only [applyWrite, type]) (fun rows keyed => keyed_upsert keyed hasId)
      fun rows _ key' => ?_
    rw [lookup_upsert rows hasId, WriteRecord.change, type]
    rfl
  | update =>
    have hasId := own.newRow (by simp [type])
    refine actsAt_setRows (upsert Row.id? wr.key wr.newRow)
      (fun storage => by simp only [applyWrite, type]) (fun rows keyed => keyed_upsert keyed hasId)
      fun rows _ key' => ?_
    rw [lookup_upsert rows hasId, WriteRecord.change, type]
    rfl

/-- Applying writes, row by row: the last one wins. -/
theorem rowAt_applyWrites {writes : List WriteRecord} (own : ∀ wr ∈ writes, wr.HasKey)
    {storage : TableStorage} (keyed : storage.WellKeyed) :
    (applyWrites writes storage).WellKeyed ∧ ∀ table key,
      (applyWrites writes storage).rowAt table key =
        putAll (changesOn table key writes) (storage.rowAt table key) :=
  rowAt_foldl (g := fun change _ => change.put) (fun wr member => applyWrite_acts (own wr member))
    keyed

/-- **When recovery shows the committed transactions only.** -/
theorem recover_committed_iff {order : RowOrder} {s s' : Session} {wal : Wal}
    {scripts : List TxnScript} {history : List TxnHistory} {target : TableStorage}
    (fresh : s.manager = { wal := some wal }) (unused : wal.appended = [])
    (empty : s.storage.Empty) (emptyTarget : target.Empty)
    (run : SerialRun order LoggableStorage s scripts history s') :
    (recoverFrom s'.manager.records target).SameRows
        (applyWrites (committedWrites history) target) ↔
      ∀ table key row, (applyWrites (committedWrites history) target).rowAt table key = some row →
        (∀ wr ∈ writesOn table key (rolledBackWrites history), wr.type ≠ .insert) ∧
          ∀ wr, (writesOn table key (rolledBackWrites history)).head? = some wr →
            wr.oldRow = row := by
  have runOf := serialRun_runOf run (ready_of_fresh fresh) (loggable_of_empty empty)
  have noRecords : s.manager.records = [] := by
    rw [fresh]
    exact unused
  obtain ⟨keyed, recovered⟩ := rowAt_recoverRun runOf noRecords emptyTarget
  obtain ⟨keyedApplied, applied⟩ := rowAt_applyWrites (forall_committedWrites runOf.hasKey)
    (wellKeyed_of_empty emptyTarget)
  rw [sameRows_iff keyed keyedApplied]
  refine forall_congr' fun table => forall_congr' fun key => ?_
  rw [recovered, applied, rowAt_of_empty emptyTarget]
  refine (undoAll_redoAll_eq_putAll_iff fun untouched => ?_).trans
    (forall_congr' fun row => imp_congr_right fun present => ?_)
  · have runs := runOf.runs table key untouched
    rw [rowAt_of_empty empty] at runs
    rw [redoAll_runs runs, putAll_runs runs]
  · rw [noInsert_changesOn_iff]
    refine and_congr_right fun noInsert => ?_
    unfold changesOn
    rw [List.head?_map]
    cases head : (writesOn table key (rolledBackWrites history)).head? with
    | none => simp
    | some wr => simp [WriteRecord.old?_change (noInsert wr (List.mem_of_mem_head? head))]

/-- A committed INSERT, and a rolled-back DELETE of its row: undone a second time it does no
harm. -/
theorem recover_committed_iff_deleted : ∃ s' history,
    SerialRun default LoggableStorage freshSession
      [⟨[insertUser "1"], true⟩, ⟨[deleteUsers], false⟩] history s' ∧
    rolledBackWrites history ≠ [] ∧
    ((recoverFrom s'.manager.records ∅).SameRows (applyWrites (committedWrites history) ∅) ↔
      ∀ table key row, (applyWrites (committedWrites history) ∅).rowAt table key = some row →
        (∀ wr ∈ writesOn table key (rolledBackWrites history), wr.type ≠ .insert) ∧
          ∀ wr, (writesOn table key (rolledBackWrites history)).head? = some wr →
            wr.oldRow = row) := by
  have run : SerialRun default LoggableStorage freshSession
      [⟨[insertUser "1"], true⟩, ⟨[deleteUsers], false⟩] _ _ :=
    .commit rfl (.cons (by decide) rfl (by decide) (.nil _)) rfl rfl (by decide)
      (.rollback rfl (.cons (by decide) rfl (by decide) (.nil _)) rfl rfl (by decide) (.done _))
  exact ⟨_, _, run, by decide, recover_committed_iff rfl rfl (by decide) (by decide) run⟩

/-- **A rolled-back INSERT takes a committed row of the same id with it.** -/
theorem recover_undoes_committed_row :
    ¬ ∀ (order : RowOrder) (s s' : Session) (wal : Wal) (scripts : List TxnScript)
      (history : List TxnHistory) (target : TableStorage),
      s.manager = { wal := some wal } → wal.appended = [] → s.storage.Empty → target.Empty →
      SerialRun order LoggableStorage s scripts history s' →
      (recoverFrom s'.manager.records target).SameRows
        (applyWrites (committedWrites history) target) := by
  intro claim
  have run : SerialRun default LoggableStorage freshSession
      [⟨[insertUser "1"], false⟩, ⟨[insertUser "1"], true⟩] _ _ :=
    .rollback rfl (.cons (by decide) rfl (by decide) (.nil _)) rfl rfl (by decide)
      (.commit rfl (.cons (by decide) rfl (by decide) (.nil _)) rfl rfl (by decide) (.done _))
  have recovered := claim default _ _ _ _ _ ∅ rfl rfl (by decide) (by decide) run (str "users")
  exact absurd recovered.length_eq (by decide)

end RolledBack

/-! ### A log that was cut off -/

section Cut

/-- The part of a transaction's records before a cut: none, or its Begin record and some of its
writes. -/
def cutLog (order : RowOrder) (id : TxnId) : Option (List WriteRecord) → List LogRecord
  | none => []
  | some writes =>
    { txnId := id, type := .begin } :: writes.map (TransactionManager.dataRecord order id)

/-- Where a cut can fall: the transactions before it are complete, and of the next one a prefix of
its writes is there. -/
theorem take_runLog (order : RowOrder) (history : List TxnHistory) :
    ∀ (id : TxnId) (n : Nat), ∃ done rest part, history = done ++ rest ∧
      (runLog order id history).take n =
        runLog order id done ++ cutLog order (id + done.length) part ∧
      ∀ writes, part = some writes → ∃ h rest', rest = h :: rest' ∧ writes <+: h.writes := by
  induction history with
  | nil => exact fun id n => ⟨[], [], none, rfl, by simp [runLog, cutLog], by simp⟩
  | cons h history ih =>
    intro id n
    by_cases whole : (txnLog order id h).length ≤ n
    · obtain ⟨done, rest, part, rfl, cut, inside⟩ := ih (id + 1) (n - (txnLog order id h).length)
      refine ⟨h :: done, rest, part, rfl, ?_, inside⟩
      rw [runLog, List.take_append, List.take_of_length_le whole, cut, runLog, List.append_assoc,
        List.length_cons, Nat.succ_add_eq_add_succ]
    · rw [runLog, List.take_append_of_le_length (by omega)]
      cases n with
      | zero => exact ⟨[], h :: history, none, rfl, rfl, by simp⟩
      | succ m =>
        refine ⟨[], h :: history, some (h.writes.take m), rfl, ?_, ?_⟩
        · have short : m ≤ (h.writes.map (TransactionManager.dataRecord order id)).length := by
            simp [txnLog] at whole ⊢
            omega
          rw [txnLog, List.take_succ_cons, List.take_append_of_le_length short, ← List.map_take]
          rfl
        · rintro _ ⟨⟩
          exact ⟨h, history, rfl, List.take_prefix _ _⟩

theorem committedIds_cutLog (order : RowOrder) (id : TxnId) (part : Option (List WriteRecord)) :
    committedIds (cutLog order id part) = [] := by
  cases part with
  | none => rfl
  | some writes =>
    have begins : committedIds [{ txnId := id, type := .begin }] = [] := rfl
    rw [cutLog, ← List.singleton_append, committedIds_append, begins, committedIds_dataRecords]
    rfl

theorem writesWhere_cutLog {p : TxnId → Prop} [DecidablePred p] (order : RowOrder) (id : TxnId)
    {part : Option (List WriteRecord)}
    (faithful : ∀ wr ∈ part.getD [], wr.FaithfulImages) :
    writesWhere p (cutLog order id part) = if p id then part.getD [] else [] := by
  cases part with
  | none => simp [cutLog, writesWhere]
  | some writes =>
    rw [cutLog, writesWhere_cons,
      writesWhere_dataRecords order id writes faithful]
    simp [LogRecord.write?]

/-- Whether a history committed throughout. -/
theorem rolledBackWrites_of_committed {history : List TxnHistory}
    (all : ∀ h ∈ history, h.committed) : rolledBackWrites history = [] := by
  simp only [rolledBackWrites, List.flatMap_eq_nil_iff, List.mem_filter]
  rintro h ⟨member, rolledBack⟩
  rw [all h member] at rolledBack
  cases rolledBack

theorem length_committedIds_runLog (order : RowOrder) {history : List TxnHistory}
    (all : ∀ h ∈ history, h.committed) :
    ∀ id, (committedIds (runLog order id history)).length = history.length := by
  induction history with
  | nil => exact fun _ => rfl
  | cons h rest ih =>
    intro id
    rw [runLog, committedIds_append, committedIds_txnLog, if_pos (all h List.mem_cons_self),
      List.length_append, ih (fun h' member => all h' (List.mem_cons_of_mem _ member)),
      List.length_cons, Nat.add_comm]
    rfl

/-- A run, split where some of its transactions have ended. -/
theorem serialRun_split {order : RowOrder} {P : TableStorage → Prop} {done rest : List TxnHistory} :
    ∀ {s s' : Session} {scripts : List TxnScript}, SerialRun order P s scripts (done ++ rest) s' →
      ∃ middle, SerialRun order P s (scripts.take done.length) done middle ∧
        SerialRun order P middle (scripts.drop done.length) rest s' := by
  induction done with
  | nil => exact fun run => ⟨_, .done _, run⟩
  | cons h done ih =>
    intro s s' scripts run
    cases run with
    | commit begun stmts known committed holds more =>
      obtain ⟨middle, first, second⟩ := ih more
      exact ⟨middle, .commit begun stmts known committed holds first, second⟩
    | rollback begun stmts known rolledBack holds more =>
      obtain ⟨middle, first, second⟩ := ih more
      exact ⟨middle, .rollback begun stmts known rolledBack holds first, second⟩

theorem committed_of_scripts {order : RowOrder} {P : TableStorage → Prop} {s s' : Session}
    {scripts : List TxnScript} {history : List TxnHistory}
    (run : SerialRun order P s scripts history s') (all : ∀ script ∈ scripts, script.commits) :
    ∀ h ∈ history, h.committed := by
  induction run with
  | done _ => simp
  | commit _ _ _ _ _ _ ih =>
    exact List.forall_mem_cons.mpr
      ⟨rfl, ih fun script member => all script (List.mem_cons_of_mem _ member)⟩
  | rollback => exact absurd (all _ List.mem_cons_self) Bool.false_ne_true

/-- The part of the cut transaction's history before the cut, undone where it was never done. -/
theorem undoAll_cut {order : RowOrder} {s s' : Session} {scripts : List TxnScript}
    {rest : List TxnHistory} {part : Option (List WriteRecord)}
    (run : SerialRun order LoggableStorage s scripts rest s') (ready : s.manager.Ready)
    (loggable : LoggableStorage s.storage)
    (inside : ∀ writes, part = some writes → ∃ h rest', rest = h :: rest' ∧ writes <+: h.writes)
    (table key : Str) :
    undoAll (changesOn table key (part.getD [])) (s.storage.rowAt table key) =
      if ∃ wr ∈ writesOn table key (part.getD []), wr.type = .insert then none
      else s.storage.rowAt table key := by
  have start : ∃ y, Runs (changesOn table key (part.getD [])) (s.storage.rowAt table key) y := by
    cases part with
    | none => exact ⟨_, .nil _⟩
    | some writes =>
      obtain ⟨h, rest', rfl, more, whole⟩ := inside writes rfl
      obtain ⟨_, _, _, _, _, step, _⟩ := serialRun_step run ready loggable
      obtain ⟨after, _, logOf, _⟩ := step.logOf
      have runs := logOf.runs table key
      rw [← whole, changesOn_append] at runs
      obtain ⟨y, first, _⟩ := runs.split
      exact ⟨y, first⟩
  obtain ⟨y, runs⟩ := start
  rw [undoAll_start runs]
  simp only [exists_changesOn_iff, WriteRecord.isInsert_change, decide_eq_true_eq]

/-- **Recovery from a cut log, row by row**: the state after the last complete transaction, less the
rows whose id the cut transaction inserts. -/
theorem rowAt_recoverCut {order : RowOrder} {s s' : Session} {scripts : List TxnScript}
    {history : List TxnHistory} {target : TableStorage} (ready : s.manager.Ready)
    (unused : s.manager.records = []) (empty : s.storage.Empty) (emptyTarget : target.Empty)
    (run : SerialRun order LoggableStorage s scripts history s')
    (all : ∀ h ∈ history, h.committed) (n : Nat) :
    ∃ k middle, (committedIds (s'.manager.records.take n)).length = k ∧
      SerialRun order LoggableStorage s (scripts.take k) (history.take k) middle ∧
      middle.storage.WellKeyed ∧ (recoverFrom (s'.manager.records.take n) target).WellKeyed ∧
      ∀ table key, (recoverFrom (s'.manager.records.take n) target).rowAt table key =
        if ∃ wr ∈ writesOn table key (writesWhere
            (· ∉ committedIds (s'.manager.records.take n)) (s'.manager.records.take n)),
          wr.type = .insert
        then none else middle.storage.rowAt table key := by
  have loggable := loggable_of_empty empty
  have runOf := serialRun_runOf run ready loggable
  obtain ⟨done, rest, part, rfl, cut, inside⟩ := take_runLog order history s.manager.nextId n
  obtain ⟨middle, first, second⟩ := serialRun_split run
  have doneOf := serialRun_runOf first ready loggable
  have doneAll : ∀ h ∈ done, h.committed := fun h member => all h (List.mem_append_left _ member)
  have partOf : ∀ wr ∈ part.getD [], wr.HasKey ∧ wr.FaithfulImages := by
    cases part with
    | none => simp
    | some writes =>
      obtain ⟨h, rest', rfl, whole⟩ := inside writes rfl
      have member : h ∈ done ++ h :: rest' := List.mem_append_right _ List.mem_cons_self
      exact fun wr write => ⟨runOf.hasKey h member wr (whole.subset write),
        runOf.faithful h member wr (whole.subset write)⟩
  -- what the cut log holds, with the numbers of its records left out
  have contents : (s'.manager.records.take n).map LogRecord.content =
      runLog order s.manager.nextId done ++
        cutLog order (s.manager.nextId + done.length) part := by
    rw [List.map_take, runOf.contents, unused, List.map_nil, List.nil_append, cut]
  have ids : committedIds (s'.manager.records.take n) =
      committedIds (runLog order s.manager.nextId done) := by
    rw [← committedIds_content, contents, committedIds_append, committedIds_cutLog, List.append_nil]
  have cutId : s.manager.nextId + done.length ∉ committedIds
      (runLog order s.manager.nextId done) := by
    rw [mem_committedIds_runLog]
    rintro ⟨i, h, found, _, same⟩
    obtain rfl : done.length = i := Nat.add_left_cancel same
    rw [List.getElem?_eq_none (le_refl _)] at found
    cases found
  obtain ⟨redone, undone⟩ := writesWhere_runLog order doneOf.faithful
    (tells_committedIds order s.manager.nextId done)
  have cutFaithful : ∀ wr ∈ part.getD [], wr.FaithfulImages := fun wr member => (partOf wr member).2
  have redoneAll : writesWhere (· ∈ committedIds (s'.manager.records.take n))
      (s'.manager.records.take n) = committedWrites done := by
    simp only [ids]
    rw [← writesWhere_content, contents, writesWhere_append, redone,
      writesWhere_cutLog order _ cutFaithful, if_neg cutId, List.append_nil]
  have undoneAll : writesWhere (· ∉ committedIds (s'.manager.records.take n))
      (s'.manager.records.take n) = part.getD [] := by
    simp only [ids]
    rw [← writesWhere_content, contents, writesWhere_append, undone,
      writesWhere_cutLog order _ cutFaithful, if_pos cutId, rolledBackWrites_of_committed doneAll,
      List.nil_append]
  have recovered := rowAt_recoverFrom (s'.manager.records.take n)
    (wellKeyed_of_empty emptyTarget) (redoneAll ▸ forall_committedWrites doneOf.hasKey)
    (undoneAll ▸ fun wr member => (partOf wr member).1)
  rw [redoneAll, undoneAll] at recovered
  refine ⟨done.length, middle, ?_, ?_, doneOf.loggable.1, recovered.1, fun table key => ?_⟩
  · rw [ids, length_committedIds_runLog order doneAll]
  · rw [List.take_left]
    exact first
  · have runs :=
      doneOf.runs table key (by rw [rolledBackWrites_of_committed doneAll, changesOn_nil])
    rw [rowAt_of_empty empty] at runs
    rw [recovered.2, rowAt_of_empty emptyTarget, redoAll_runs runs, undoneAll]
    exact undoAll_cut second doneOf.ready doneOf.loggable inside table key

/-- **When recovery from a cut log is atomic.** -/
theorem recover_cut_iff {order : RowOrder} {s s' : Session} {wal : Wal}
    {scripts : List TxnScript} {history : List TxnHistory} {target : TableStorage}
    (fresh : s.manager = { wal := some wal }) (unused : wal.appended = [])
    (empty : s.storage.Empty) (emptyTarget : target.Empty)
    (allCommit : ∀ script ∈ scripts, script.commits)
    (run : SerialRun order LoggableStorage s scripts history s') (n : Nat) :
    ∃ k middle, (committedIds (s'.manager.records.take n)).length = k ∧
      SerialRun order LoggableStorage s (scripts.take k) (history.take k) middle ∧
      ((recoverFrom (s'.manager.records.take n) target).SameRows middle.storage ↔
        ∀ rec ∈ s'.manager.records.take n, rec.txnId ∉ committedIds (s'.manager.records.take n) →
          rec.type = .insert → middle.storage.rowAt rec.table rec.key = none) := by
  have noRecords : s.manager.records = [] := by
    rw [fresh]
    exact unused
  obtain ⟨k, middle, count, first, keyed, keyedRecovered, recovered⟩ :=
    rowAt_recoverCut (ready_of_fresh fresh) noRecords empty emptyTarget run
      (committed_of_scripts run allCommit) n
  refine ⟨k, middle, count, first, ?_⟩
  rw [sameRows_iff keyedRecovered keyed]
  constructor
  · intro same rec member uncommitted isInsert
    have row := same rec.table rec.key
    rw [recovered,
      if_pos (exists_insert_writesWhere.mpr ⟨rec, member, uncommitted, isInsert, rfl, rfl⟩)]
      at row
    exact row.symm
  · intro absent table key
    rw [recovered]
    split
    · rename_i inserted
      obtain ⟨rec, member, uncommitted, isInsert, rfl, rfl⟩ := exists_insert_writesWhere.mp inserted
      exact (absent rec member uncommitted isInsert).symm
    · rfl

/-- The cut falls behind the first of two INSERTs of a transaction, after another one that
committed. -/
theorem recover_cut_iff_inside : ∃ (s' : Session) (history : List TxnHistory) (middle : Session),
    SerialRun default LoggableStorage freshSession
      [⟨[insertUser "1"], true⟩, ⟨[insertUser "2", insertUser "3"], true⟩] history s' ∧
    SerialRun default LoggableStorage freshSession [⟨[insertUser "1"], true⟩]
      (history.take 1) middle ∧
    ((recoverFrom (s'.manager.records.take 5) ∅).SameRows middle.storage ↔
      ∀ rec ∈ s'.manager.records.take 5, rec.txnId ∉ committedIds (s'.manager.records.take 5) →
        rec.type = .insert → middle.storage.rowAt rec.table rec.key = none) := by
  have run : SerialRun default LoggableStorage freshSession
      [⟨[insertUser "1"], true⟩, ⟨[insertUser "2", insertUser "3"], true⟩] _ _ :=
    .commit rfl (.cons (by decide) rfl (by decide) (.nil _)) rfl rfl (by decide)
      (.commit rfl (.cons (by decide) rfl (by decide) (.cons (by decide) rfl (by decide) (.nil _)))
        rfl rfl (by decide) (.done _))
  obtain ⟨k, middle, count, first, same⟩ := recover_cut_iff rfl rfl (by decide)
    (by decide : TableStorage.Empty ∅) (by decide) run 5
  obtain rfl : 1 = k := count
  exact ⟨_, _, middle, run, first, same⟩

/-- **A cut after a transaction re-inserted an id it had deleted loses the committed row.** -/
theorem recover_cut_damages_row :
    ¬ ∀ (order : RowOrder) (s s' middle : Session) (wal : Wal) (scripts : List TxnScript)
      (history : List TxnHistory) (target : TableStorage) (n k : Nat),
      s.manager = { wal := some wal } → wal.appended = [] → s.storage.Empty → target.Empty →
      (∀ script ∈ scripts, script.commits) →
      SerialRun order LoggableStorage s scripts history s' →
      (committedIds (s'.manager.records.take n)).length = k →
      SerialRun order LoggableStorage s (scripts.take k) (history.take k) middle →
      (recoverFrom (s'.manager.records.take n) target).SameRows middle.storage := by
  intro claim
  have insertOne : SerialRun default LoggableStorage freshSession [⟨[insertUser "1"], true⟩] _ _ :=
    .commit rfl (.cons (by decide) rfl (by decide) (.nil _)) rfl rfl (by decide) (.done _)
  have run : SerialRun default LoggableStorage freshSession
      [⟨[insertUser "1"], true⟩, ⟨[deleteUsers, insertUser "1"], true⟩] _ _ :=
    .commit rfl (.cons (by decide) rfl (by decide) (.nil _)) rfl rfl (by decide)
      (.commit rfl (.cons (by decide) rfl (by decide) (.cons (by decide) rfl (by decide) (.nil _)))
        rfl rfl (by decide) (.done _))
  -- the log is cut after the second transaction's Insert record
  have recovered := claim default _ _ _ (Wal.openFile []) _ _ ∅ 6 1 rfl rfl (by decide) (by decide)
    (by decide) run (by decide) insertOne (str "users")
  exact absurd recovered.length_eq (by decide)

end Cut

end MyDb
