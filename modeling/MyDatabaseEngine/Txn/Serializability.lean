/-
**Locked runs are serializable.**

`lockedState` reads a session and the ledger of its run as a state of `StrictLocking`; every step of
a locked run is one of its steps there, two of them, or none (`LockedStep.consistent`). So at every
point the transactions that have ended did what they would have done one after the other, in the
order they ended. `serves_of_runs` turns that back into calls: `lockedRun_serializable` gives a
session that begins, runs and ends these transactions one by one.

The resources are the tables, and the part of the state that a transaction owns is its locked tables
and its write log. A rollback reads and writes no other tables, because a transaction has locked the
tables of its log (`LogsOwned`). Answers are the rows of a query and whether a statement returned or
threw.
-/

import MyDatabaseEngine.Txn.LockedRun

namespace MyDb

open StrictLocking
open TransactionManager (undoWrite)

/-! ### The state of a locked run -/

section Abstraction

/-- The write log of a transaction that is active. -/
def Session.openWrites (s : Session) (id : TxnId) : List WriteRecord :=
  match s.manager.transactions.lookup id with
  | some txn => if txn.active then txn.writeLog else []
  | none => []

/-- What a transaction has. -/
def lockedPart (name : Str → Str) (s : Session) (ledger : Ledger) (id : TxnId) :
    Part Str (List WriteRecord) TxnOp where
  own := s.openWrites id
  script := (ledger.served id).map fun e => .served e.1 e.2
  holds := {table | s.Holds name id table}
  owns := {table | s.Owns name id table}

/-- What an ended transaction ran, its end included. -/
def TxnTrace.script (trace : TxnTrace) : List TxnOp :=
  (trace.served.map fun e => .served e.1 e.2) ++ [.finished trace.committed]

/-- What it ran, and the write log it ended with. -/
def TxnTrace.outcome (trace : TxnTrace) : List TxnOp × List WriteRecord :=
  (trace.script, trace.writes)

/-- **A session and the ledger of its run, as a state of strict locking.** -/
def lockedState (name : Str → Str) (s : Session) (ledger : Ledger) :
    State TxnId Str (List WriteRecord) TableStorage TxnOp where
  store := s.storage
  part := lockedPart name s ledger
  closed := ledger.ended.map TxnTrace.outcome

/-- Every table an open transaction has written it has locked. -/
def LogsOwned (name : Str → Str) (s : Session) : Prop :=
  ∀ id, ∀ wr ∈ s.openWrites id, s.Owns name id wr.table

variable {name : Str → Str} {s s' : Session} {ledger ledger' : Ledger} {id : TxnId}
  {txn : Transaction}

theorem openWrites_of_active (known : s.manager.get id = .ok txn) (active : txn.active = true) :
    s.openWrites id = txn.writeLog := by
  unfold Session.openWrites
  rw [get_eq_ok.mp known]
  exact if_pos active

theorem openWrites_congr
    (same : s'.manager.transactions.lookup id = s.manager.transactions.lookup id) :
    s'.openWrites id = s.openWrites id := by
  unfold Session.openWrites
  rw [same]

/-- A transaction's part is read off its entries in the two tables. -/
theorem lockedPart_congr
    (txns : s'.manager.transactions.lookup id = s.manager.transactions.lookup id)
    (locks : ∀ resource mode, ⟨id, mode⟩ ∈ s'.manager.lockManager.entriesOf resource ↔
      ⟨id, mode⟩ ∈ s.manager.lockManager.entriesOf resource)
    (served : ledger'.served id = ledger.served id) :
    lockedPart name s' ledger' id = lockedPart name s ledger id := by
  unfold lockedPart
  congr 1
  · exact openWrites_congr txns
  · rw [served]
  · ext table
    exact exists_congr fun mode => locks (name table) mode
  · ext table
    exact locks (name table) .exclusive

/-- One transaction's part has changed, and the storage and the ended transactions perhaps too. -/
theorem lockedState_eq_put {part : Part Str (List WriteRecord) TxnOp}
    (own : lockedPart name s' ledger' id = part)
    (others : ∀ u ≠ id, lockedPart name s' ledger' u = lockedPart name s ledger u) :
    lockedState name s' ledger' =
      ({ lockedState name s ledger with
          store := s'.storage
          closed := ledger'.ended.map TxnTrace.outcome }).put id part := by
  have parts : lockedPart name s' ledger' = Function.update (lockedPart name s ledger) id part :=
    Function.eq_update_iff.mpr ⟨own, others⟩
  unfold lockedState State.put
  dsimp only
  rw [parts]

end Abstraction

/-! ### Every step is a step of strict locking -/

section Steps

variable {order : RowOrder} {stdSort : StdSort Row} {name : Str → Str} {Q : List Row → Prop}
  {s s' : Session} {ledger : Ledger} {id : TxnId} {txn : Transaction} {start : TableStorage}

theorem begin_transactions (s : Session) (id : TxnId) :
    s.begin.2.openWrites id = s.openWrites id := by
  have transactions : s.begin.2.manager.transactions =
      if s.manager.nextId ∈ s.manager.transactions then s.manager.transactions
      else s.manager.transactions.insert s.manager.nextId { id := s.manager.nextId } := rfl
  by_cases old : s.manager.nextId ∈ s.manager.transactions
  · exact openWrites_congr (by rw [transactions, if_pos old])
  · rw [if_neg old] at transactions
    by_cases own : id = s.manager.nextId
    · unfold Session.openWrites
      rw [transactions, own, Finmap.lookup_insert, Finmap.lookup_eq_none.mpr old]
      rfl
    · exact openWrites_congr (by rw [transactions, Finmap.lookup_insert_of_ne _ own])

/-- `begin` changes nothing that matters to the others, and its transaction has nothing yet. -/
theorem lockedState_begin (s : Session) :
    lockedState name s.begin.2 ledger = lockedState name s ledger := by
  have parts : lockedPart name s.begin.2 ledger = lockedPart name s ledger := by
    funext u
    unfold lockedPart
    rw [begin_transactions]
    rfl
  unfold lockedState
  rw [parts]
  rfl

theorem logsOwned_begin (owned : LogsOwned name s) : LogsOwned name s.begin.2 := by
  intro id wr member
  rw [begin_transactions] at member
  exact owned id wr member

/-- The entries of a resource after a lock request. -/
theorem mem_entriesOf_acquireLock (id u : TxnId) (resource other : Str) (mode mode' : LockMode)
    (s : Session) :
    ⟨u, mode'⟩ ∈ (s.acquireLock id resource mode).2.manager.lockManager.entriesOf other ↔
      ⟨u, mode'⟩ ∈ s.manager.lockManager.entriesOf other ∨
        (s.acquireLock id resource mode).1 = true ∧ other = resource ∧ u = id ∧ mode' = mode := by
  show _ ∈ LockManager.entriesOf (s.manager.lockManager.acquireLock id resource mode).2 other ↔
    _ ∨ (s.manager.lockManager.acquireLock id resource mode).1 = true ∧ _
  rw [LockManager.entriesOf_acquireLock]
  by_cases granted : (s.manager.lockManager.acquireLock id resource mode).1 = true ∧
    other = resource
  · rw [if_pos granted, List.mem_append, List.mem_singleton, LockEntry.mk.injEq]
    exact or_congr_right ⟨fun same => ⟨granted.1, granted.2, same⟩, fun all => all.2.2⟩
  · rw [if_neg granted]
    exact (or_iff_left fun all => granted ⟨all.1, all.2.1⟩).symm

/-- The tables a resource stands for. -/
def tablesOf (name : Str → Str) (resource : Str) : Set Str := {table | name table = resource}

/-- **A lock request is a step, when it is granted.** -/
theorem acquireLock_consistent (resource : Str) (mode : LockMode)
    (consistent : Consistent (lockedSystem stdSort Q) start (lockedState name s ledger)) :
    Consistent (lockedSystem stdSort Q) start
      (lockedState name (s.acquireLock id resource mode).2 ledger) := by
  have entries := fun u other mode' => mem_entriesOf_acquireLock id u resource other mode mode' s
  have others : ∀ u ≠ id, lockedPart name (s.acquireLock id resource mode).2 ledger u =
      lockedPart name s ledger u := fun u different => by
    apply lockedPart_congr
    · rfl
    · intro other mode'
      exact (entries u other mode').trans (or_iff_left fun all => different all.2.2.1)
    · rfl
  by_cases granted : (s.acquireLock id resource mode).1 = true
  · have clear := LockManager.acquireLock_granted_iff.mp granted
    have holds : ∀ table, (s.acquireLock id resource mode).2.Holds name id table ↔
        s.Holds name id table ∨ table ∈ tablesOf name resource := by
      intro table
      constructor
      · rintro ⟨mode', member⟩
        rcases (entries id (name table) mode').mp member with old | new
        · exact Or.inl ⟨mode', old⟩
        · exact Or.inr new.2.1
      · rintro (⟨mode', old⟩ | new)
        · exact ⟨mode', (entries id (name table) mode').mpr (Or.inl old)⟩
        · exact ⟨mode, (entries id (name table) mode).mpr (Or.inr ⟨granted, new, rfl, rfl⟩)⟩
    cases mode with
    | shared =>
      have own : lockedPart name (s.acquireLock id resource .shared).2 ledger id =
          { lockedPart name s ledger id with
            holds := (lockedPart name s ledger id).holds ∪ tablesOf name resource } := by
        unfold lockedPart
        dsimp only
        congr 1
        · ext table
          exact holds table
        · ext table
          exact (entries id (name table) .exclusive).trans
            (or_iff_left fun all => by cases all.2.2.2)
      rw [lockedState_eq_put own others]
      refine Step.consistent
        (.share id (tablesOf name resource) fun u different table member owned => ?_)
        consistent
      have same : name table = resource := member
      exact clear ⟨u, .exclusive⟩ (same ▸ owned) different (Or.inl rfl)
    | exclusive =>
      have own : lockedPart name (s.acquireLock id resource .exclusive).2 ledger id =
          { lockedPart name s ledger id with
            holds := (lockedPart name s ledger id).holds ∪ tablesOf name resource
            owns := (lockedPart name s ledger id).owns ∪ tablesOf name resource } := by
        unfold lockedPart
        dsimp only
        congr 1
        · ext table
          exact holds table
        · ext table
          refine (entries id (name table) .exclusive).trans (or_congr_right ?_)
          exact ⟨fun all => all.2.1, fun same => ⟨granted, same, rfl, rfl⟩⟩
      rw [lockedState_eq_put own others]
      refine Step.consistent
        (.acquire id (tablesOf name resource) fun u different table member held => ?_)
        consistent
      obtain ⟨mode', held⟩ := held
      have same : name table = resource := member
      exact clear ⟨u, mode'⟩ (same ▸ held) different (Or.inr rfl)
  · have own : lockedPart name (s.acquireLock id resource mode).2 ledger id =
        lockedPart name s ledger id := by
      apply lockedPart_congr
      · rfl
      · intro other mode'
        exact (entries id other mode').trans (or_iff_left fun all => granted all.1)
      · rfl
    have same : lockedState name (s.acquireLock id resource mode).2 ledger =
        lockedState name s ledger := by
      have parts : lockedPart name (s.acquireLock id resource mode).2 ledger =
          lockedPart name s ledger := by
        funext u
        by_cases different : u = id
        · rw [different, own]
        · exact others u different
      unfold lockedState
      rw [parts]
      rfl
    rw [same]
    exact consistent

theorem logsOwned_acquireLock (resource : Str) (mode : LockMode) (owned : LogsOwned name s) :
    LogsOwned name (s.acquireLock id resource mode).2 := fun u wr member =>
  (mem_entriesOf_acquireLock id u resource (name wr.table) mode .exclusive s).mpr
    (Or.inl (owned u wr member))

/-- What changes when a transaction gets on. -/
theorem openWrites_advance (active : txn.active = true) (writes : List WriteRecord)
    (storage : TableStorage) (u : TxnId) :
    (s.advance id txn writes storage).openWrites u = if u = id then writes else s.openWrites u := by
  by_cases own : u = id
  · rw [if_pos own, own]
    have known' : (s.advance id txn writes storage).manager.get id =
        .ok { txn with writeLog := writes } := get_eq_ok.mpr (Finmap.lookup_insert _)
    exact openWrites_of_active known' active
  · rw [if_neg own]
    exact openWrites_congr (Finmap.lookup_insert_of_ne _ own)

/-- **A request is a step.** -/
theorem serve_consistent {request : Request} {answer : Answer} (known : s.manager.get id = .ok txn)
    (active : txn.active = true) (covered : request.Covered name s id)
    (served : s.serve stdSort id request = .ok (answer, s'))
    (valid : ∀ table, Q (s'.storage.rows table)) (owned : LogsOwned name s)
    (consistent : Consistent (lockedSystem stdSort Q) start (lockedState name s ledger)) :
    Consistent (lockedSystem stdSort Q) start
        (lockedState name s' (ledger.record (.served id request answer))) ∧ LogsOwned name s' := by
  obtain ⟨writes, storage, effect, rfl⟩ := (serve_iff known active).mp served
  have before := openWrites_of_active known active
  constructor
  · have covers : TxnOp.Covers (lockedPart name s ledger id).holds
      (lockedPart name s ledger id).owns
        (lockedPart name s ledger id).own (.served request answer) := by
      cases request with
      | dml stmt => exact covered
      | query snapshot plan => exact covered
    have within : (lockedSystem stdSort Q).Within (lockedPart name s ledger id).holds
        (lockedPart name s ledger id).owns (.served request answer)
          (lockedPart name s ledger id).own :=
      opEffect_within covers (consistent.apart.owned id)
    have own : lockedPart name (s.advance id txn writes storage)
        (ledger.record (.served id request answer)) id =
          { lockedPart name s ledger id with
            own := writes
            script := (lockedPart name s ledger id).script ++ [.served request answer] } := by
      unfold lockedPart
      dsimp only
      congr 1
      · rw [openWrites_advance active, if_pos rfl]
      · dsimp only [Ledger.record]
        rw [Function.update_self, List.map_append]
        rfl
    have valid' : (lockedSystem stdSort Q).Valid storage := valid
    rw [lockedState_eq_put own fun u different => ?_]
    · refine Step.consistent (.work id within ?_ valid') consistent
      show OpEffect stdSort _ (s.openWrites id) s.storage _ _
      rw [before]
      exact effect
    · apply lockedPart_congr
      · exact Finmap.lookup_insert_of_ne _ different
      · exact fun _ _ => Iff.rfl
      · exact Function.update_of_ne different _ _
  · intro u wr member
    rw [openWrites_advance active] at member
    by_cases same : u = id
    · rw [if_pos same] at member
      rw [same]
      cases effect with
      | @wrote stmt _ _ log rows' outcome =>
        rcases List.mem_append.mp member with old | new
        · exact owned id wr (before ▸ old)
        · rw [DmlStatement.table_of_logged outcome wr new]
          exact covered
      | threw _ | answered _ => exact owned id wr (before ▸ member)
    · rw [if_neg same] at member
      exact owned u wr member

/-- The entries of a resource after a transaction has ended. -/
theorem mem_entriesOf_close (order : RowOrder) (m : TransactionManager) (txn closed : Transaction)
    (id u : TxnId) (outcome : RecordType) (resource : Str) (mode : LockMode) :
    ⟨u, mode⟩ ∈ (m.close order txn closed id outcome).lockManager.entriesOf resource ↔
      ⟨u, mode⟩ ∈ m.lockManager.entriesOf resource ∧ u ≠ id := by
  have locks : (m.logOutcome order txn id outcome).lockManager = m.lockManager := by
    have loop : ∀ (log : List WriteRecord) (m : TransactionManager),
        (log.foldl (fun m wr => m.append (TransactionManager.dataRecord order id wr))
          m).lockManager =
          m.lockManager := by
      intro log
      induction log with
      | nil => exact fun _ => rfl
      | cons wr rest ih => exact fun m => ih (m.append _)
    exact loop txn.writeLog m
  unfold TransactionManager.close
  dsimp only
  rw [LockManager.entriesOf_releaseAll, locks, LockManager.withoutHolder, List.mem_filter,
    decide_eq_true_eq]

/-- **The end of a transaction is two steps**: commit or rollback, and the release of its locks. -/
theorem finish_consistent {committed : Bool} (known : s.manager.get id = .ok txn)
    (done : s.finish order committed id = .ok s') (valid : ∀ table, Q (s'.storage.rows table))
    (owned : LogsOwned name s)
    (consistent : Consistent (lockedSystem stdSort Q) start (lockedState name s ledger)) :
    Consistent (lockedSystem stdSort Q) start
        (lockedState name s' (ledger.record (.finished id committed txn.writeLog))) ∧
      LogsOwned name s' := by
  have active := active_of_finish known done
  obtain ⟨storage, effect, rfl⟩ := (finish_iff stdSort known active).mp done
  have before := openWrites_of_active known active
  obtain ⟨_, transactions⟩ := close_frame order s.manager txn (txn.finish committed) id
    (closingType committed)
  have entries :=
    fun u resource mode => mem_entriesOf_close order s.manager txn (txn.finish committed)
    id u (closingType committed) resource mode
  have openAfter : ∀ u, Session.openWrites
      { storage, manager :=
          s.manager.close order txn (txn.finish committed) id (closingType committed) } u =
        if u = id then [] else s.openWrites u := by
    intro u
    by_cases same : u = id
    · have ended : (txn.finish committed).active = false := by
        cases committed <;> rfl
      rw [if_pos same, same]
      unfold Session.openWrites
      dsimp only
      rw [transactions, Finmap.lookup_insert]
      dsimp only
      rw [ended]
      rfl
    · rw [if_neg same]
      apply openWrites_congr
      dsimp only
      rw [transactions, Finmap.lookup_insert_of_ne _ same]
  constructor
  · have covers : TxnOp.Covers (lockedPart name s ledger id).holds
      (lockedPart name s ledger id).owns
        (lockedPart name s ledger id).own (.finished committed) := owned id
    have within : (lockedSystem stdSort Q).Within (lockedPart name s ledger id).holds
        (lockedPart name s ledger id).owns (.finished committed)
          (lockedPart name s ledger id).own :=
      opEffect_within covers (consistent.apart.owned id)
    have valid' : (lockedSystem stdSort Q).Valid storage := valid
    have effect' : (lockedSystem stdSort Q).effect (.finished committed)
        ((lockedState name s ledger).part id).own (lockedState name s ledger).store txn.writeLog
        storage := by
      show OpEffect stdSort _ (s.openWrites id) s.storage _ _
      rw [before]
      exact effect
    have closed :=
      Step.consistent (.close id) (Step.consistent (.work id within effect' valid') consistent)
    have own : lockedPart name
        { storage, manager :=
            s.manager.close order txn (txn.finish committed) id (closingType committed) }
        (ledger.record (.finished id committed txn.writeLog)) id = .idle [] := by
      unfold lockedPart Part.idle
      congr 1
      · rw [openAfter, if_pos rfl]
      · dsimp only [Ledger.record]
        rw [Function.update_self]
        rfl
      · ext table
        refine iff_of_false ?_ (Set.notMem_empty table)
        rintro ⟨mode, member⟩
        exact ((entries id (name table) mode).mp member).2 rfl
      · ext table
        refine iff_of_false (fun member => ?_) (Set.notMem_empty table)
        exact ((entries id (name table) .exclusive).mp member).2 rfl
    rw [lockedState_eq_put own fun u different => ?_]
    · convert closed using 1
      unfold State.put
      dsimp only
      rw [Function.update_idem, Function.update_self]
      congr 1
      dsimp only [Ledger.record]
      rw [List.map_append, ← before]
      rfl
    · apply lockedPart_congr
      · dsimp only
        rw [transactions]
        exact Finmap.lookup_insert_of_ne _ different
      · exact fun resource mode => (entries u resource mode).trans (and_iff_left different)
      · exact Function.update_of_ne different _ _
  · intro u wr member
    rw [openAfter] at member
    by_cases same : u = id
    · rw [if_pos same] at member
      exact absurd member List.not_mem_nil
    · rw [if_neg same] at member
      exact (entries u (name wr.table) .exclusive).mpr ⟨owned u wr member, same⟩

/-- **A step of a locked run keeps the run serializable.** -/
theorem LockedStep.consistent {event : LockedEvent}
    (step : LockedStep order stdSort name Q s event s') (owned : LogsOwned name s)
    (consistent : Consistent (lockedSystem stdSort Q) start (lockedState name s ledger)) :
    Consistent (lockedSystem stdSort Q) start (lockedState name s' (ledger.record event)) ∧
      LogsOwned name s' := by
  cases step with
  | begin =>
    refine ⟨?_, logsOwned_begin owned⟩
    show Consistent _ _ (lockedState name s.begin.2 ledger)
    rw [lockedState_begin]
    exact consistent
  | acquireLock resource mode _ _ =>
    exact ⟨acquireLock_consistent resource mode consistent,
      logsOwned_acquireLock resource mode owned⟩
  | serve known active covered served valid =>
    exact serve_consistent known active covered served valid owned consistent
  | finish known done valid => exact finish_consistent known done valid owned consistent
  | rejected _ => exact ⟨consistent, owned⟩

/-- **No transaction is active and nothing is locked**; ids the manager knows it has given out. -/
structure Session.Quiet (s : Session) : Prop where
  given : s.manager.IdsGiven
  ended : ∀ id txn, s.manager.get id = .ok txn → txn.active = false
  unlocked : ∀ resource, s.manager.lockManager.entriesOf resource = []

theorem Session.Quiet.openWrites (quiet : s.Quiet) (id : TxnId) : s.openWrites id = [] := by
  unfold Session.openWrites
  cases found : s.manager.transactions.lookup id with
  | none => rfl
  | some txn =>
    dsimp only
    rw [quiet.ended id txn (get_eq_ok.mpr found), if_neg Bool.false_ne_true]

theorem Session.Quiet.lockedPart (quiet : s.Quiet) (id : TxnId) :
    lockedPart name s {} id = .idle [] := by
  unfold MyDb.lockedPart Part.idle
  congr 1
  · exact quiet.openWrites id
  · ext table
    refine iff_of_false ?_ (Set.notMem_empty table)
    rintro ⟨mode, member⟩
    rw [quiet.unlocked] at member
    exact absurd member List.not_mem_nil
  · ext table
    refine iff_of_false (fun member => ?_) (Set.notMem_empty table)
    have member' : ⟨id, .exclusive⟩ ∈ s.manager.lockManager.entriesOf (name table) := member
    rw [quiet.unlocked] at member'
    exact absurd member' List.not_mem_nil

/-- **A locked run is serializable at every point.** -/
theorem LockedRun.consistent {events : List LockedEvent} (quiet : s.Quiet)
    (valid : ∀ table, Q (s.storage.rows table)) (run : LockedRun order stdSort name Q s events s') :
    Consistent (lockedSystem stdSort Q) s.storage (lockedState name s' (ledgerOf events)) ∧
      LogsOwned name s' := by
  induction run with
  | nil =>
    have start : lockedState name s {} = ⟨s.storage, fun _ => .idle [], []⟩ := by
      have parts : lockedPart name s {} = fun _ => .idle [] := by
        funext id
        exact quiet.lockedPart id
      unfold lockedState
      rw [parts]
      rfl
    refine ⟨?_, fun id wr member => ?_⟩
    · show Consistent _ _ (lockedState name s {})
      rw [start]
      have valid' : (lockedSystem stdSort Q).Valid s.storage := valid
      exact consistent_idle valid'
    · rw [quiet.openWrites] at member
      exact absurd member List.not_mem_nil
  | concat _ step ih =>
    rw [ledgerOf_concat]
    exact step.consistent ih.2 ih.1

end Steps

/-! ### The serial run -/

/-- **Requests under one transaction**, with their answers, and `P` after each. -/
inductive Served (stdSort : StdSort Row) (P : TableStorage → Prop) (id : TxnId) (s : Session) :
    List (Request × Answer) → Session → Prop
  | nil : Served stdSort P id s [] s
  | concat {s' s'' : Session} {served : List (Request × Answer)} {request : Request}
    {answer : Answer} :
      Served stdSort P id s served s' → s'.serve stdSort id request = .ok (answer, s'') →
      P s''.storage → Served stdSort P id s (served ++ [(request, answer)]) s''

/-- **Transactions one after the other**: each begun, its requests served, and ended. -/
inductive SerialTxns (order : RowOrder) (stdSort : StdSort Row) (P : TableStorage → Prop)
    (s : Session) :
    List TxnTrace → Session → Prop
  | nil : SerialTxns order stdSort P s [] s
  | concat {s₁ s₂ s₃ s₄ : Session} {traces : List TxnTrace} {id : TxnId} {txn : Transaction}
      {served : List (Request × Answer)} {committed : Bool} :
      SerialTxns order stdSort P s traces s₁ → s₁.begin = (id, s₂) →
      Served stdSort P id s₂ served s₃ → s₃.manager.get id = .ok txn →
      s₃.finish order committed id = .ok s₄ → P s₄.storage →
      SerialTxns order stdSort P s (traces ++ [⟨served, committed, txn.writeLog⟩]) s₄

section Serial

variable {order : RowOrder} {stdSort : StdSort Row} {name : Str → Str} {Q : List Row → Prop}
  {s s' : Session} {id : TxnId} {txn : Transaction}

theorem idsGiven_advance (given : s.manager.IdsGiven) (known : s.manager.get id = .ok txn)
    (writes : List WriteRecord) (storage : TableStorage) :
    (s.advance id txn writes storage).manager.IdsGiven := by
  intro other member
  rcases Finmap.mem_insert.mp member with rfl | old
  · exact given other (Finmap.mem_of_lookup_eq_some (get_eq_ok.mp known))
  · exact given other old

/-- Requests that run as operations are served with the same answers. -/
theorem served_of_runs {reads writes : Set Str} {served : List (Request × Answer)}
    {log : List WriteRecord} {storage : TableStorage} (known : s.manager.get id = .ok txn)
    (active : txn.active = true) (given : s.manager.IdsGiven)
    (run : Runs (lockedSystem stdSort Q) reads writes txn.writeLog s.storage
      (served.map fun e => .served e.1 e.2) log storage) :
    ∃ s', Served stdSort (fun storage => ∀ table, Q (storage.rows table)) id s served s' ∧
      s'.storage = storage ∧ s'.manager.get id = .ok { txn with writeLog := log } ∧
      s'.manager.IdsGiven := by
  induction served using List.reverseRecOn generalizing log storage with
  | nil =>
    obtain ⟨rfl, rfl⟩ := runs_nil run
    exact ⟨s, .nil, rfl, known, given⟩
  | append_singleton served last ih =>
    rw [List.map_append] at run
    obtain ⟨log', storage', before, effect, valid⟩ := runs_concat run
    obtain ⟨s', done, rfl, known', given'⟩ := ih before
    have served' : s'.serve stdSort id last.1 = .ok (last.2, s'.advance id _ log storage) :=
      (serve_iff known' active).mpr ⟨log, storage, effect, rfl⟩
    refine ⟨_, .concat done served' valid, rfl, ?_, idsGiven_advance given' known' log storage⟩
    exact get_eq_ok.mpr (Finmap.lookup_insert _)

/-- `begin` gives a new active transaction. -/
theorem get_begin (given : s.manager.IdsGiven) :
    s.begin.2.manager.get s.manager.nextId = .ok { id := s.manager.nextId } ∧
      s.begin.2.manager.IdsGiven := by
  have isNew : s.manager.nextId ∉ s.manager.transactions := fun old =>
    absurd (given _ old) (lt_irrefl _)
  refine ⟨get_eq_ok.mpr ?_, (@ManagerStep.begin default s.manager).idsGiven given⟩
  have transactions : s.begin.2.manager.transactions =
      s.manager.transactions.insert s.manager.nextId { id := s.manager.nextId } := if_neg isNew
  rw [transactions]
  exact Finmap.lookup_insert _

/-- **What ran serially as operations runs serially as calls.** -/
theorem serialTxns_of_serial {traces : List TxnTrace} {storage : TableStorage}
    (given : s.manager.IdsGiven)
    (serial : Serial (lockedSystem stdSort Q) s.storage (traces.map TxnTrace.outcome) storage) :
    ∃ s', SerialTxns order stdSort (fun storage => ∀ table, Q (storage.rows table)) s traces s' ∧
      s'.storage = storage ∧ s'.manager.IdsGiven := by
  induction traces using List.reverseRecOn generalizing storage with
  | nil =>
    obtain rfl := serial_nil serial
    exact ⟨s, .nil, rfl, given⟩
  | append_singleton traces trace ih =>
    rw [List.map_append] at serial
    obtain ⟨reads, writes, storage', serialBefore, run⟩ := serial_concat serial
    obtain ⟨s₁, before, rfl, given₁⟩ := ih serialBefore
    obtain ⟨known, given₂⟩ := get_begin given₁
    obtain ⟨log, storage₃, servedRun, effect, valid⟩ := runs_concat run
    obtain ⟨s₃, served, rfl, known₃, given₃⟩ := served_of_runs known rfl given₂ servedRun
    have unlogged : trace.writes = log := by
      cases committed : trace.committed <;> rw [committed] at effect <;> cases effect <;> rfl
    rw [unlogged] at effect
    have done : s₃.finish order trace.committed s₁.manager.nextId = .ok _ :=
      (finish_iff stdSort known₃ rfl).mpr ⟨storage, effect, rfl⟩
    have result := SerialTxns.concat before rfl served known₃ done valid
    have same : (⟨trace.served, trace.committed, log⟩ : TxnTrace) = trace := by
      rw [← unlogged]
    refine ⟨_, same ▸ result, rfl, ?_⟩
    exact (ManagerStep.finish trace.committed (get_eq_ok.mp known₃) rfl).idsGiven given₃

end Serial

/-! ### Serializability -/

section Result

variable {order : RowOrder} {stdSort : StdSort Row} {name : Str → Str} {Q : List Row → Prop}
  {s s' : Session} {events : List LockedEvent}

/-- **Locked runs are serializable.** At every point of a locked run there is a serial run of the
transactions that have ended so far, in the order they ended, with the same answers, ends and write
logs; its tables are those of the locked run wherever no transaction holds an exclusive lock. A
transaction still active could have run after them: begun there, it is given the same answers, has
the same write log, and leaves the tables it has locked as they are now. What `Q` says of every
table throughout the one run holds throughout the others. -/
theorem lockedRun_serializable (quiet : s.Quiet) (valid : ∀ table, Q (s.storage.rows table))
    (run : LockedRun order stdSort name Q s events s') :
    ∃ serial, SerialTxns order stdSort (fun storage => ∀ table, Q (storage.rows table)) s
        (ledgerOf events).ended serial ∧
      (∀ table, (∀ id, ¬ s'.Owns name id table) →
        s'.storage.lookup table = serial.storage.lookup table) ∧
      ∀ id txn, s'.manager.get id = .ok txn → txn.active = true →
        ∃ next, Served stdSort (fun storage => ∀ table, Q (storage.rows table)) serial.begin.1
            serial.begin.2 ((ledgerOf events).served id) next ∧
          next.manager.get serial.begin.1 = .ok { id := serial.begin.1, writeLog := txn.writeLog } ∧
          ∀ table, s'.Holds name id table →
            s'.storage.lookup table = next.storage.lookup table := by
  obtain ⟨⟨_, _, storage, _, serial, settled⟩, _⟩ := run.consistent quiet valid
  obtain ⟨serialEnd, serialRun, rfl, given⟩ :=
    @serialTxns_of_serial order _ _ _ _ _ quiet.given serial
  refine ⟨serialEnd, serialRun, fun table unowned => settled.free table unowned,
    fun id txn known active => ?_⟩
  obtain ⟨storage', replay, agree⟩ := settled.replays id
  obtain ⟨known', given'⟩ := get_begin given
  obtain ⟨next, served, rfl, log, _⟩ := served_of_runs known' rfl given' replay
  have own : ((lockedState name s' (ledgerOf events)).part id).own = txn.writeLog :=
    openWrites_of_active known active
  rw [own] at log
  exact ⟨next, served, log, fun table held => (agree table held).symm⟩

/-- The rows of `users`. -/
def queryUsers : Request := .query none (.seqScan (str "users"))

theorem quiet_of_fresh {wal : Option Wal} (fresh : s.manager = { wal := wal }) : s.Quiet where
  given := by
    rw [fresh]
    exact fun id member => absurd member Finmap.notMem_empty
  ended := by
    intro id txn known
    rw [get_eq_ok, fresh] at known
    exact absurd known (by simp)
  unlocked := by
    rw [fresh]
    exact fun _ => rfl

/-- A reader waits for a writer. -/
theorem lockedRun_serializable_writerFirst : ∃ events s' serial,
    LockedRun default default id (fun _ => True) freshSession events s' ∧
    SerialTxns default default (fun _ => ∀ _ : Str, True) freshSession
      (ledgerOf events).ended serial ∧
    (ledgerOf events).ended.map TxnTrace.committed = [true, true] := by
  have run : LockedRun default default id (fun _ => True) freshSession _ _ :=
    .concat (.concat (.concat (.concat (.concat (.concat (.concat (.concat (.concat .nil
      .begin) .begin)
      (@LockedStep.acquireLock default default id _ _ 1 _ (str "users") .exclusive rfl rfl))
      (@LockedStep.acquireLock default default id _ _ 2 _ (str "users") .shared rfl rfl))
      (@LockedStep.serve default default id _ _ _ 1 _ (.dml (insertUser "1")) _ rfl rfl
        (show (⟨1, .exclusive⟩ : LockEntry) ∈ _ by decide) rfl (fun _ => trivial)))
      (@LockedStep.finish default default id _ _ _ 1 _ true rfl rfl fun _ => trivial))
      (@LockedStep.acquireLock default default id _ _ 2 _ (str "users") .shared rfl rfl))
      (@LockedStep.serve default default id _ _ _ 2 _ queryUsers _ rfl rfl
        (List.forall_mem_singleton.mpr ⟨.shared, show (⟨2, .shared⟩ : LockEntry) ∈ _ by decide⟩) rfl
          (fun _ => trivial)))
      (@LockedStep.finish default default id _ _ _ 2 _ true rfl rfl fun _ => trivial)
  obtain ⟨serial, serialRun, _⟩ :=
    lockedRun_serializable (quiet_of_fresh rfl) (fun _ => trivial) run
  exact ⟨_, _, serial, run, serialRun, rfl⟩

end Result

end MyDb
