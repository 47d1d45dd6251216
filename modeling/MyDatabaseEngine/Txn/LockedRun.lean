/-
**Transactions that lock the tables they use.**

Clients of one transaction manager run requests under their transactions in any interleaving
(`LockedRun`). A client asks `lockManager()` for the lock of a table first, exclusive for INSERT,
UPDATE and DELETE, in any mode for a query, and sends the request only once it holds the lock; locks
go back when the transaction commits or rolls back. Which resource name stands for a table is the
clients' choice (`name`); several tables may share one.

`OpEffect` is what a request does to the write log of its transaction and to the storage;
`serve_iff` and `finish_iff` say that the session does exactly that. `lockedSystem` makes it a
system in the sense of `StrictLocking`, and `opEffect_within` gives every request its footprint.
-/

import MyDatabaseEngine.Lib.StrictLocking
import MyDatabaseEngine.Txn.Calls
import MyDatabaseEngine.Txn.Footprint
import MyDatabaseEngine.Txn.LockSafety

namespace MyDb

open TransactionManager (undoWrite)

/-! ### Requests -/

/-- What a client asks of the executor under a transaction. -/
inductive Request
  | dml (stmt : DmlStatement)
  | query (snapshot : Option MvccSnapshot) (plan : PhysicalPlan)

/-- What it is told: the rows of a query, nothing for a statement that returns, or what was
thrown. -/
abbrev Answer := Except Fault (List Row)

namespace Session

/-- A request under a transaction: its answer, and the session after it. -/
def serve (stdSort : StdSort Row) (id : TxnId) (request : Request) (s : Session) :
    Except Fault (Answer × Session) :=
  match request with
  | .dml stmt => do
    let txn ← s.manager.get id
    let s' ← s.exec id stmt
    .ok ((executeDml stmt s.storage (some txn)).map fun _ => [], s')
  | .query snapshot plan => .ok (Executor.execute stdSort s.storage snapshot plan, s)

/-- `commit` or `rollback`. -/
def finish (order : RowOrder) (committed : Bool) (id : TxnId) (s : Session) :
    Except Fault Session :=
  if committed then s.commit order id else s.rollback order id

/-- `lockManager().acquireLock(id, resource, mode)`: whether it was granted, and the session after
it. -/
def acquireLock (id : TxnId) (resource : Str) (mode : LockMode) (s : Session) : Bool × Session :=
  let (granted, lockManager) := s.manager.lockManager.acquireLock id resource mode
  (granted, { s with manager := { s.manager with lockManager } })

/-- The transaction holds a lock for the table. -/
def Holds (name : Str → Str) (s : Session) (id : TxnId) (table : Str) : Prop :=
  ∃ mode, ⟨id, mode⟩ ∈ s.manager.lockManager.entriesOf (name table)

/-- The transaction holds the exclusive lock for the table. -/
def Owns (name : Str → Str) (s : Session) (id : TxnId) (table : Str) : Prop :=
  ⟨id, .exclusive⟩ ∈ s.manager.lockManager.entriesOf (name table)

end Session

/-- **The transaction holds the locks the request needs.** -/
def Request.Covered (name : Str → Str) (s : Session) (id : TxnId) : Request → Prop
  | .dml stmt => s.Owns name id stmt.table
  | .query _ plan => ∀ table ∈ plan.tables, s.Holds name id table

/-! ### Locked runs -/

/-- What a step of a run shows: a request and its answer, the end of a transaction with its write
log, or nothing. -/
inductive LockedEvent
  | silent
  | served (id : TxnId) (request : Request) (answer : Answer)
  | finished (id : TxnId) (committed : Bool) (writes : List WriteRecord)

/-- **One step of a locked run**, to a storage in which every table satisfies `Q`: `begin`, a lock
asked for and granted or denied, a request that its locks cover, `commit` or `rollback`, or one of
these two on an id that is unknown or has ended, which throws before it changes anything. -/
inductive LockedStep (order : RowOrder) (stdSort : StdSort Row) (name : Str → Str)
    (Q : List Row → Prop) (s : Session) : LockedEvent → Session → Prop
  | begin : LockedStep order stdSort name Q s .silent s.begin.2
  | acquireLock {id : TxnId} {txn : Transaction} (resource : Str) (mode : LockMode) :
      s.manager.get id = .ok txn → txn.active = true →
      LockedStep order stdSort name Q s .silent (s.acquireLock id resource mode).2
  | serve {s' : Session} {id : TxnId} {txn : Transaction} {request : Request} {answer : Answer} :
      s.manager.get id = .ok txn → txn.active = true → request.Covered name s id →
      s.serve stdSort id request = .ok (answer, s') → (∀ table, Q (s'.storage.rows table)) →
      LockedStep order stdSort name Q s (.served id request answer) s'
  | finish {s' : Session} {id : TxnId} {txn : Transaction} {committed : Bool} :
      s.manager.get id = .ok txn → s.finish order committed id = .ok s' →
      (∀ table, Q (s'.storage.rows table)) →
      LockedStep order stdSort name Q s (.finished id committed txn.writeLog) s'
  | rejected {id : TxnId} {fault : Fault} :
      s.manager.getActive id = .error fault → LockedStep order stdSort name Q s .silent s

/-- **Any interleaving of such steps.** -/
inductive LockedRun (order : RowOrder) (stdSort : StdSort Row) (name : Str → Str)
    (Q : List Row → Prop) (s : Session) : List LockedEvent → Session → Prop
  | nil : LockedRun order stdSort name Q s [] s
  | concat {s' s'' : Session} {events : List LockedEvent} {event : LockedEvent} :
      LockedRun order stdSort name Q s events s' → LockedStep order stdSort name Q s' event s'' →
      LockedRun order stdSort name Q s (events ++ [event]) s''

/-- What a transaction that has ended did: its requests with their answers, whether it committed,
and its write log. -/
structure TxnTrace where
  served : List (Request × Answer)
  committed : Bool
  writes : List WriteRecord

/-- The requests of each open transaction, and the transactions that have ended, in the order they
did. -/
structure Ledger where
  served : TxnId → List (Request × Answer) := fun _ => []
  ended : List TxnTrace := []

def Ledger.record (ledger : Ledger) : LockedEvent → Ledger
  | .silent => ledger
  | .served id request answer =>
    { ledger with
      served := Function.update ledger.served id (ledger.served id ++ [(request, answer)]) }
  | .finished id committed writes =>
    { served := Function.update ledger.served id []
      ended := ledger.ended ++ [⟨ledger.served id, committed, writes⟩] }

/-- What the events of a run tell. -/
def ledgerOf (events : List LockedEvent) : Ledger := events.foldl Ledger.record {}

theorem ledgerOf_concat (events : List LockedEvent) (event : LockedEvent) :
    ledgerOf (events ++ [event]) = (ledgerOf events).record event := by
  unfold ledgerOf
  rw [List.foldl_append]
  rfl

/-! ### What a request does to the write log and the storage -/

section Effects

/-- What a transaction runs: requests, and last its end. -/
inductive TxnOp
  | served (request : Request) (answer : Answer)
  | finished (committed : Bool)

/-- **The effect of an operation** on the write log of its transaction and on the storage. -/
inductive OpEffect (stdSort : StdSort Row) :
    TxnOp → List WriteRecord → TableStorage → List WriteRecord → TableStorage → Prop
  | wrote {stmt : DmlStatement} {storage : TableStorage} {writes log : List WriteRecord}
      {rows' : List Row} :
      stmt.onTable (storage.lookup stmt.table) = .ok (rows', log) →
      OpEffect stdSort (.served (.dml stmt) (.ok [])) writes storage (writes ++ log)
        (storage.setRows stmt.table rows')
  | threw {stmt : DmlStatement} {storage : TableStorage} {writes : List WriteRecord} {what : Str} :
      stmt.onTable (storage.lookup stmt.table) = .error (.runtimeError what) →
      OpEffect stdSort (.served (.dml stmt) (.error (.runtimeError what))) writes storage
        writes storage
  | answered {snapshot : Option MvccSnapshot} {plan : PhysicalPlan} {storage : TableStorage}
      {writes : List WriteRecord} {answer : Answer} :
      Executor.execute stdSort storage snapshot plan = answer →
      OpEffect stdSort (.served (.query snapshot plan) answer) writes storage writes storage
  | committed {storage : TableStorage} {writes : List WriteRecord} :
      OpEffect stdSort (.finished true) writes storage writes storage
  | rolledBack {storage : TableStorage} {writes : List WriteRecord} :
      OpEffect stdSort (.finished false) writes storage writes (writes.foldr undoWrite storage)

variable {order : RowOrder} {stdSort : StdSort Row} {s s' : Session} {id : TxnId}
  {txn : Transaction}

/-- The session with a transaction's write log and the storage replaced. -/
def Session.advance (s : Session) (id : TxnId) (txn : Transaction) (writes : List WriteRecord)
    (storage : TableStorage) : Session where
  manager := { s.manager with
    transactions := s.manager.transactions.insert id { txn with writeLog := writes } }
  storage := storage

theorem advance_self (known : s.manager.get id = .ok txn) :
    s.advance id txn txn.writeLog s.storage = s := by
  have unchanged : s.manager.transactions.insert id txn = s.manager.transactions := by
    apply Finmap.ext_lookup
    intro other
    by_cases own : other = id
    · rw [own, Finmap.lookup_insert, get_eq_ok.mp known]
    · rw [Finmap.lookup_insert_of_ne _ own]
  unfold Session.advance
  dsimp only
  rw [unchanged]

theorem exec_eq (stmt : DmlStatement) (known : s.manager.get id = .ok txn)
    (active : txn.active = true) :
    s.exec id stmt =
      match stmt.onTable (s.storage.lookup stmt.table) with
      | .ok (rows', log) =>
        .ok (s.advance id txn (txn.writeLog ++ log) (s.storage.setRows stmt.table rows'))
      | .error (.runtimeError _) => .ok s
      | .error fault => .error fault := by
  unfold Session.exec
  rw [known]
  dsimp only [bind, Except.bind]
  rw [executeDml_eq stmt s.storage active]
  cases stmt.onTable (s.storage.lookup stmt.table) with
  | ok done => rfl
  | error fault => cases fault <;> rfl

/-- **A request is served exactly as its effect says.** -/
theorem serve_iff (known : s.manager.get id = .ok txn) (active : txn.active = true)
    {request : Request} {answer : Answer} :
    s.serve stdSort id request = .ok (answer, s') ↔
      ∃ writes storage,
        OpEffect stdSort (.served request answer) txn.writeLog s.storage writes storage ∧
        s' = s.advance id txn writes storage := by
  cases request with
  | dml stmt =>
    unfold Session.serve
    dsimp only
    rw [known]
    dsimp only [bind, Except.bind]
    rw [exec_eq stmt known active, executeDml_eq stmt s.storage active]
    constructor
    · intro done
      cases outcome : stmt.onTable (s.storage.lookup stmt.table) with
      | ok result =>
        rw [outcome] at done
        cases done
        exact ⟨_, _, .wrote outcome, rfl⟩
      | error fault =>
        rw [outcome] at done
        cases fault with
        | runtimeError what =>
          cases done
          exact ⟨_, _, .threw outcome, (advance_self known).symm⟩
        | _ => cases done
    · rintro ⟨writes, storage, effect, rfl⟩
      cases effect with
      | wrote outcome =>
        rw [outcome]
        rfl
      | threw outcome =>
        rw [outcome, advance_self known]
        rfl
  | query snapshot plan =>
    constructor
    · intro done
      cases done
      exact ⟨_, _, .answered rfl, (advance_self known).symm⟩
    · rintro ⟨writes, storage, effect, rfl⟩
      cases effect with
      | answered executed =>
        rw [advance_self known]
        subst executed
        rfl

variable (stdSort) in
/-- **A transaction ends exactly as its effect says.** -/
theorem finish_iff (known : s.manager.get id = .ok txn) (active : txn.active = true)
    {committed : Bool} :
    s.finish order committed id = .ok s' ↔
      ∃ storage, OpEffect stdSort (.finished committed) txn.writeLog s.storage
        txn.writeLog storage ∧
        s' = { storage, manager :=
                s.manager.close order txn (txn.finish committed) id (closingType committed) } := by
  cases committed with
  | true =>
    unfold Session.finish
    rw [if_pos rfl, commit_eq_ok known active]
    constructor
    · intro done
      cases done
      exact ⟨_, .committed, rfl⟩
    · rintro ⟨storage, effect, rfl⟩
      cases effect
      rfl
  | false =>
    unfold Session.finish
    rw [if_neg Bool.false_ne_true, rollback_eq_ok known active]
    constructor
    · intro done
      cases done
      exact ⟨_, .rolledBack, rfl⟩
    · rintro ⟨storage, effect, rfl⟩
      cases effect
      rfl

/-- A transaction that can end is active. -/
theorem active_of_finish {committed : Bool} (known : s.manager.get id = .ok txn)
    (done : s.finish order committed id = .ok s') : txn.active = true := by
  by_contra inactive
  have throws : s.manager.getActive id =
      .error (.runtimeError (str "Transaction is not active")) := by
    simp [TransactionManager.getActive, known, inactive, bind, Except.bind]
  unfold Session.finish Session.commit Session.rollback TransactionManager.commit
    TransactionManager.rollback at done
  rw [throws] at done
  cases committed <;> cases done

end Effects

/-! ### The system of the tables -/

section System

open StrictLocking

/-- **Tables as resources, write logs as the transactions' own state.** -/
def lockedSystem (stdSort : StdSort Row) (Q : List Row → Prop) :
    System Str (Option (List Row)) (List WriteRecord) TableStorage TxnOp where
  look := fun storage table => storage.lookup table
  effect := OpEffect stdSort
  valid := fun rows? => Q (rows?.getD [])
  fresh := []

/-- What an operation may read and write, under these locks. -/
def TxnOp.Covers (holds owns : Set Str) (writes : List WriteRecord) : TxnOp → Prop
  | .served (.dml stmt) _ => stmt.table ∈ owns
  | .served (.query _ plan) _ => ∀ table ∈ plan.tables, table ∈ holds
  | .finished _ => ∀ wr ∈ writes, wr.table ∈ owns

/-- **An operation keeps to the tables its transaction has locked.** -/
theorem opEffect_within {stdSort : StdSort Row} {Q : List Row → Prop} {holds owns : Set Str}
    {op : TxnOp} {writes : List WriteRecord} (covers : op.Covers holds owns writes)
    (owned : owns ⊆ holds) : (lockedSystem stdSort Q).Within holds owns op writes where
  frame := by
    intro storage storage' writes' effect table outside
    cases effect with
    | wrote _ => exact lookup_setRows_of_ne _ _ fun same => outside (same ▸ covers)
    | rolledBack => exact undoWrites_frame _ fun wr member same => outside (same ▸ covers wr member)
    | threw _ | answered _ | committed => rfl
  agrees := by
    intro storage storage₁ storage' writes' effect agree
    cases effect with
    | @wrote stmt _ _ log rows' outcome =>
      have same : storage.lookup stmt.table = storage₁.lookup stmt.table := agree _ (owned covers)
      rw [same] at outcome
      refine ⟨_, .wrote outcome, fun table held => ?_⟩
      show (storage.setRows stmt.table rows').lookup table =
        (storage₁.setRows stmt.table rows').lookup table
      by_cases own : table = stmt.table
      · rw [own, lookup_setRows_self, lookup_setRows_self]
      · rw [lookup_setRows_of_ne _ _ own, lookup_setRows_of_ne _ _ own]
        exact agree table held
    | @threw stmt _ _ _ outcome =>
      have same : storage.lookup stmt.table = storage₁.lookup stmt.table := agree _ (owned covers)
      rw [same] at outcome
      exact ⟨storage₁, .threw outcome, agree⟩
    | answered executed =>
      refine ⟨storage₁, .answered (Eq.trans ?_ executed), agree⟩
      exact execute_congr stdSort _ fun table member => (agree table (covers table member)).symm
    | committed => exact ⟨storage₁, .committed, agree⟩
    | rolledBack =>
      exact ⟨_, .rolledBack, undoWrites_congr (fun wr member => owned (covers wr member)) agree⟩

end System

end MyDb
