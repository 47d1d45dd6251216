/-
**Calls in any order, under any ids.**

`commitCall` and `rollbackCall` are `commit` and `rollback` statement by statement on the session,
so that a throw leaves the session as the statements before it did (`commitCall_eq`,
`rollbackCall_eq`: exactly as it was). A `CallRun` makes any calls of a session in any order:
transactions interleave, ids may be unknown or finished, and calls may throw.

`ManagerStep` says once what a call can do to the manager: begin a transaction, add to the write log
of an active one, end an active one with its records, or nothing. Invariants of a run are proved of
these steps and carried over by `CallRun.keeps`; `IdsGiven`, that the manager knows only ids below
its counter, is the first of them.
-/

import MyDatabaseEngine.Txn.RunLog
import MyDatabaseEngine.Lib.Outcome

namespace MyDb

open Outcome
open TransactionManager (dataRecord undoWrite)

/-! ### The calls, statement by statement -/

namespace Session

abbrev Call (α : Type) := EStateM Fault Session α

def onManager (change : TransactionManager → TransactionManager) : Call Unit :=
  modify fun s => { s with manager := change s.manager }

/-- `auto& txn = get(id); if (!txn.active()) throw ...;` -/
def getActiveCall (id : TxnId) : Call Transaction := do
  let s ← get
  match s.manager.transactions.lookup id with
  | none => throw (.runtimeError (str "Transaction not found"))
  | some txn =>
    if txn.active then pure txn else throw (.runtimeError (str "Transaction is not active"))

/-- The block `if (wal_) { ... }` that `commit` and `rollback` share. -/
def logOutcomeCall (order : RowOrder) (txn : Transaction) (id : TxnId) (outcome : RecordType) :
    Call Unit := do
  txn.writeLog.forM fun wr => onManager (TransactionManager.append (dataRecord order id wr))
  onManager (TransactionManager.append { txnId := id, type := outcome })
  onManager fun manager => { manager with wal := manager.wal.map Wal.flush }

/-- `commit`. -/
def commitCall (order : RowOrder) (id : TxnId) : Call Unit := do
  let txn ← getActiveCall id
  logOutcomeCall order txn id .commit
  onManager fun manager =>
    { manager with transactions := manager.transactions.insert id txn.commit }
  onManager fun manager =>
    { manager with lockManager := LockManager.releaseAll id manager.lockManager }

/-- `rollback`. -/
def rollbackCall (order : RowOrder) (id : TxnId) : Call Unit := do
  let txn ← getActiveCall id
  txn.writeLog.reverse.forM fun wr => modify fun s => { s with storage := undoWrite wr s.storage }
  logOutcomeCall order txn id .abort
  onManager fun manager =>
    { manager with transactions := manager.transactions.insert id txn.abort }
  onManager fun manager =>
    { manager with lockManager := LockManager.releaseAll id manager.lockManager }

section Equations

variable {order : RowOrder} {id : TxnId} {s : Session}

theorem getActiveCall_eq : getActiveCall id s =
    match s.manager.getActive id with
    | .ok txn => .ok txn s
    | .error fault => .error fault s := by
  unfold getActiveCall TransactionManager.getActive TransactionManager.get
  show (match s.manager.transactions.lookup id with
    | none => throw _
    | some txn => if txn.active then pure txn else throw _ : Call Transaction) s = _
  cases s.manager.transactions.lookup id with
  | none => rfl
  | some txn =>
    by_cases active : txn.active = true
    · simp only [active, bind, Except.bind, if_true]
      rfl
    · simp only [active, bind, Except.bind]
      rfl

theorem logOutcomeCall_eq (txn : Transaction) (outcome : RecordType) :
    logOutcomeCall order txn id outcome s =
      .ok ⟨⟩ { s with manager := s.manager.logOutcome order txn id outcome } := by
  have writes : ∀ (log : List WriteRecord) (s : Session),
      log.foldl (fun s wr => { s with manager := s.manager.append (dataRecord order id wr) }) s =
        { s with
          manager := log.foldl (fun m wr => m.append (dataRecord order id wr)) s.manager } := by
    intro log
    induction log with
    | nil => exact fun _ => rfl
    | cons wr rest ih => exact fun s => ih _
  have loop := forM_modify (ε := Fault) (fun wr (s : Session) =>
    { s with manager := s.manager.append (dataRecord order id wr) }) txn.writeLog s
  unfold logOutcomeCall TransactionManager.logOutcome
  show EStateM.bind _ _ s = _
  unfold EStateM.bind onManager
  rw [loop, writes]
  rfl

/-- **`commit` throws before it changes anything.** -/
theorem commitCall_eq : commitCall order id s =
    match s.commit order id with
    | .ok s' => .ok ⟨⟩ s'
    | .error fault => .error fault s := by
  unfold commitCall Session.commit TransactionManager.commit
  show EStateM.bind _ _ s = _
  unfold EStateM.bind
  rw [getActiveCall_eq]
  cases s.manager.getActive id with
  | error fault => rfl
  | ok txn =>
    show EStateM.bind _ _ s = _
    unfold EStateM.bind
    rw [logOutcomeCall_eq]
    rfl

/-- **`rollback` throws before it changes anything.** -/
theorem rollbackCall_eq : rollbackCall order id s =
    match s.rollback order id with
    | .ok s' => .ok ⟨⟩ s'
    | .error fault => .error fault s := by
  have undone : ∀ (log : List WriteRecord) (s : Session),
      log.foldl (fun s wr => { s with storage := undoWrite wr s.storage }) s =
        { s with storage := log.foldl (fun storage wr => undoWrite wr storage) s.storage } := by
    intro log
    induction log with
    | nil => exact fun _ => rfl
    | cons wr rest ih => exact fun s => ih _
  unfold rollbackCall Session.rollback TransactionManager.rollback
  show EStateM.bind _ _ s = _
  unfold EStateM.bind
  rw [getActiveCall_eq]
  cases s.manager.getActive id with
  | error fault => rfl
  | ok txn =>
    have loop := forM_modify (ε := Fault) (fun wr (s : Session) =>
      { s with storage := undoWrite wr s.storage }) txn.writeLog.reverse s
    show EStateM.bind _ _ s = _
    unfold EStateM.bind
    rw [loop, undone, List.foldl_reverse]
    show EStateM.bind _ _ _ = _
    unfold EStateM.bind
    rw [logOutcomeCall_eq]
    rfl

end Equations

end Session

/-! ### Runs of calls -/

/-- A call of a session. -/
inductive SessionCall
  | begin
  | exec (id : TxnId) (stmt : DmlStatement)
  | commit (id : TxnId)
  | rollback (id : TxnId)
  deriving DecidableEq, Repr

/-- **One call**, whether it returns or throws. A statement under an unknown id does not reach the
executor: `get` throws. A statement whose execution has no defined outcome is no step. -/
inductive CallStep (order : RowOrder) : Session → SessionCall → Session → Prop
  | begin (s : Session) : CallStep order s .begin s.begin.2
  | exec {s s' : Session} {id : TxnId} {stmt : DmlStatement} :
      s.exec id stmt = .ok s' → CallStep order s (.exec id stmt) s'
  | execUnknown {s : Session} {id : TxnId} {stmt : DmlStatement} {what : Str} :
      s.manager.get id = .error (.runtimeError what) → CallStep order s (.exec id stmt) s
  | commit (s : Session) (id : TxnId) :
      CallStep order s (.commit id) (after (Session.commitCall order id s))
  | rollback (s : Session) (id : TxnId) :
      CallStep order s (.rollback id) (after (Session.rollbackCall order id s))

/-- **Calls one after the other.** -/
inductive CallRun (order : RowOrder) : Session → List SessionCall → Session → Prop
  | nil (s : Session) : CallRun order s [] s
  | cons {s s' s'' : Session} {call : SessionCall} {rest : List SessionCall} :
      CallStep order s call s' → CallRun order s' rest s'' → CallRun order s (call :: rest) s''

/-! ### What a call does to the manager -/

section Steps

/-- The status a transaction ends with. -/
def Transaction.finish (committed : Bool) (txn : Transaction) : Transaction :=
  if committed then txn.commit else txn.abort

/-- The type of the record a transaction ends with. -/
def closingType (committed : Bool) : RecordType := if committed then .commit else .abort

/-- **What a call can do to the manager**: begin a transaction, extend the write log of an active
one, end an active one, or nothing. -/
inductive ManagerStep (order : RowOrder) : TransactionManager → TransactionManager → Prop
  | begin (m : TransactionManager) : ManagerStep order m m.begin.2
  | write {m : TransactionManager} {id : TxnId} {txn : Transaction} (log : List WriteRecord) :
      m.transactions.lookup id = some txn → txn.active = true →
        ManagerStep order m { m with transactions := m.transactions.insert id (txn.extend log) }
  | finish {m : TransactionManager} {id : TxnId} {txn : Transaction} (committed : Bool) :
      m.transactions.lookup id = some txn → txn.active = true →
        ManagerStep order m (m.close order txn (txn.finish committed) id (closingType committed))
  | same (m : TransactionManager) : ManagerStep order m m

theorem updateRows_inactive (stmt : UpdateStatement) {txn : Transaction} (rows : List Row)
    (inactive : txn.active = false) : (updateRows stmt rows (some txn)).2 = some txn := by
  have unlogged : ∀ record, logIfActive (some txn) record = some txn := fun record => by
    simp [logIfActive, inactive]
  induction rows with
  | nil => rfl
  | cons row rest ih =>
    rw [updateRows]
    split
    · dsimp only
      rw [unlogged, ih]
    · exact ih

theorem deleteRows_inactive (stmt : DeleteStatement) {txn : Transaction} (rows : List Row)
    (inactive : txn.active = false) : (deleteRows stmt rows (some txn)).2 = some txn := by
  have unlogged : ∀ record, logIfActive (some txn) record = some txn := fun record => by
    simp [logIfActive, inactive]
  induction rows with
  | nil => rfl
  | cons row rest ih =>
    rw [deleteRows]
    split
    · rw [unlogged, ih]
    · exact ih

/-- **A statement extends the write log of an active transaction and leaves any other alone.** -/
theorem executeDml_txn {stmt : DmlStatement} {storage storage' : TableStorage} {txn : Transaction}
    {txn' : Option Transaction} (done : executeDml stmt storage (some txn) = .ok (storage', txn')) :
    ∃ log, txn' = some (txn.extend log) ∧ (txn.active = false → log = []) := by
  cases active : txn.active with
  | true =>
    refine Exists.imp (fun log same => ⟨same, fun inactive => absurd inactive (by simp)⟩) ?_
    cases stmt with
    | insert stmt =>
      simp only [executeDml, executeInsert] at done
      split at done
      · cases done
      · cases built : buildRow stmt.columns stmt.values ∅ with
        | error fault => rw [built] at done; cases done
        | ok row =>
          rw [built] at done
          cases done
          exact ⟨_, logIfActive_some active _⟩
    | update stmt =>
      simp only [executeDml, executeUpdate] at done
      split at done
      · cases done
      · rw [updateRows_eq stmt _ txn active] at done
        cases done
        exact ⟨_, rfl⟩
    | delete stmt =>
      simp only [executeDml, executeDelete] at done
      split at done
      · cases done
      · rw [deleteRows_eq stmt _ txn active] at done
        cases done
        exact ⟨_, rfl⟩
  | false =>
    refine ⟨[], ?_, fun _ => rfl⟩
    rw [Transaction.extend_nil]
    cases stmt with
    | insert stmt =>
      simp only [executeDml, executeInsert] at done
      split at done
      · cases done
      · cases built : buildRow stmt.columns stmt.values ∅ with
        | error fault => rw [built] at done; cases done
        | ok row =>
          rw [built] at done
          cases done
          simp [logIfActive, active]
    | update stmt =>
      simp only [executeDml, executeUpdate] at done
      split at done
      · cases done
      · cases done
        exact updateRows_inactive stmt _ active
    | delete stmt =>
      simp only [executeDml, executeDelete] at done
      split at done
      · cases done
      · cases done
        exact deleteRows_inactive stmt _ active

theorem exec_managerStep {order : RowOrder} {s s' : Session} {id : TxnId} {stmt : DmlStatement}
    (done : s.exec id stmt = .ok s') : ManagerStep order s.manager s'.manager := by
  unfold Session.exec at done
  cases known : s.manager.get id with
  | error fault =>
    rw [known] at done
    cases done
  | ok txn =>
    rw [known] at done
    simp only [bind, Except.bind] at done
    have found := get_eq_ok.mp known
    split at done
    · rename_i storage' txn' ran
      cases done
      obtain ⟨log, rfl, inactiveLog⟩ := executeDml_txn ran
      cases active : txn.active with
      | true => exact .write log found active
      | false =>
        rw [inactiveLog active, Transaction.extend_nil, Option.getD_some]
        have unchanged : s.manager.transactions.insert id txn = s.manager.transactions := by
          refine Finmap.ext_lookup fun other => ?_
          by_cases own : other = id
          · rw [own, Finmap.lookup_insert, found]
          · rw [Finmap.lookup_insert_of_ne _ own]
        rw [unchanged]
        exact .same _
    · cases done
      exact .same _
    · cases done

theorem getActive_cases (id : TxnId) (m : TransactionManager) :
    (∃ fault, m.getActive id = .error fault) ∨
      ∃ txn, m.getActive id = .ok txn ∧ m.transactions.lookup id = some txn ∧
        txn.active = true := by
  cases known : m.get id with
  | error fault =>
    refine Or.inl ⟨fault, ?_⟩
    simp [TransactionManager.getActive, known, bind, Except.bind]
  | ok txn =>
    cases active : txn.active with
    | true => exact Or.inr ⟨txn, getActive_eq_ok known active, get_eq_ok.mp known, active⟩
    | false =>
      refine Or.inl ⟨.runtimeError (str "Transaction is not active"), ?_⟩
      simp [TransactionManager.getActive, known, active, bind, Except.bind]

theorem callStep_managerStep {order : RowOrder} {s s' : Session} {call : SessionCall}
    (step : CallStep order s call s') : ManagerStep order s.manager s'.manager := by
  cases step with
  | begin => exact .begin _
  | exec done => exact exec_managerStep done
  | execUnknown => exact .same _
  | commit id =>
    rw [Session.commitCall_eq]
    unfold Session.commit TransactionManager.commit
    rcases getActive_cases id s.manager with ⟨fault, throws⟩ | ⟨txn, isActive, found, active⟩
    · rw [throws]
      exact .same _
    · rw [isActive]
      exact .finish true found active
  | rollback id =>
    rw [Session.rollbackCall_eq]
    unfold Session.rollback TransactionManager.rollback
    rcases getActive_cases id s.manager with ⟨fault, throws⟩ | ⟨txn, isActive, found, active⟩
    · rw [throws]
      exact .same _
    · rw [isActive]
      exact .finish false found active

/-- **What every step keeps holds after every run.** -/
theorem CallRun.keeps {order : RowOrder} {P : TransactionManager → Prop}
    (keeps : ∀ {m m'}, ManagerStep order m m' → P m → P m') {s s' : Session}
    {calls : List SessionCall} (run : CallRun order s calls s') (holds : P s.manager) :
    P s'.manager := by
  induction run with
  | nil => exact holds
  | cons step _ ih => exact ih (keeps (callStep_managerStep step) holds)

/-- Ending a transaction changes no other and gives out no id. -/
theorem close_frame (order : RowOrder) (m : TransactionManager) (txn closed : Transaction)
    (id : TxnId) (outcome : RecordType) :
    (m.close order txn closed id outcome).nextId = m.nextId ∧
      (m.close order txn closed id outcome).transactions = m.transactions.insert id closed := by
  have loop : ∀ (log : List WriteRecord) (m : TransactionManager),
      (log.foldl (fun m wr => m.append (dataRecord order id wr)) m).nextId = m.nextId ∧
        (log.foldl (fun m wr => m.append (dataRecord order id wr)) m).transactions =
          m.transactions := by
    intro log
    induction log with
    | nil => exact fun _ => ⟨rfl, rfl⟩
    | cons wr rest ih => exact fun m => ih (m.append (dataRecord order id wr))
  obtain ⟨next, transactions⟩ := loop txn.writeLog m
  refine ⟨next, ?_⟩
  show Finmap.insert id closed (txn.writeLog.foldl _ m).transactions = _
  rw [transactions]

/-- Transactions carry ids the manager has given out. -/
def TransactionManager.IdsGiven (m : TransactionManager) : Prop :=
  ∀ id ∈ m.transactions, id < m.nextId

theorem ManagerStep.idsGiven {order : RowOrder} {m m' : TransactionManager}
    (step : ManagerStep order m m') (given : m.IdsGiven) : m'.IdsGiven := by
  have inserted : ∀ {id : TxnId} {txn txn' : Transaction},
      m.transactions.lookup id = some txn →
        ∀ other ∈ m.transactions.insert id txn', other < m.nextId := by
    intro id txn txn' found other member
    rcases Finmap.mem_insert.mp member with rfl | old
    · exact given other (Finmap.mem_of_lookup_eq_some found)
    · exact given other old
  cases step with
  | begin =>
    intro other member
    show other < m.nextId + 1
    by_cases own : other = m.nextId
    · rw [own]
      exact Nat.lt_succ_self _
    · have old : other ∈ m.transactions := by
        revert member
        show other ∈ (if _ then _ else _ : Finmap _) → _
        split
        · exact id
        · exact fun member => (Finmap.mem_insert.mp member).resolve_left own
      exact Nat.lt_succ_of_lt (given other old)
  | write log found _ => exact inserted found
  | @finish id txn committed found _ =>
    obtain ⟨next, transactions⟩ :=
      close_frame order m txn (txn.finish committed) id (closingType committed)
    intro other member
    rw [transactions] at member
    rw [next]
    exact inserted found other member
  | same => exact given

/-- The transaction has committed. -/
def TransactionManager.HasCommitted (m : TransactionManager) (id : TxnId) : Prop :=
  ∃ txn, m.get id = .ok txn ∧ txn.status = .committed

theorem TransactionManager.IdsGiven.lt_of_hasCommitted {m : TransactionManager}
    (given : m.IdsGiven) {id : TxnId} (committed : m.HasCommitted id) : id < m.nextId := by
  obtain ⟨txn, known, _⟩ := committed
  exact given id (Finmap.mem_of_lookup_eq_some (get_eq_ok.mp known))

end Steps

end MyDb
