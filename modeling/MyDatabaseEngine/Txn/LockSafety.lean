/-
**The lock table holds exactly the granted, unreleased locks, and they never conflict.**

`LockTrace.ofCalls` runs `acquireLock` and `releaseAll` calls on an empty table and keeps the
history of its grants and releases. `LockTrace.Agrees` is the invariant: a resource's entries are
the outstanding locks on it. A request is granted if and only if no other transaction's outstanding
lock on the resource conflicts, so the history is disciplined, and `GrantHistory` gives safety
(`lockTable_safe`). `isLocked` tells whether a lock is outstanding (`isLocked_iff`).

The calls may come from any transactions in any order, also from ones that never began or have
ended, and may be denied. A denied request leaves every entry as it is, and at most creates an empty
list.
-/

import MyDatabaseEngine.Txn.LockManager
import MyDatabaseEngine.Lib.GrantHistory

namespace MyDb

open GrantHistory

/-- A granted lock: who holds it, on what, and how. -/
structure Lock where
  holder : TxnId
  resource : Str
  mode : LockMode
  deriving DecidableEq, Repr

namespace Lock

/-- The lock's entry in its resource's list. -/
def entry (lock : Lock) : LockEntry := ⟨lock.holder, lock.mode⟩

/-- **Locks on one resource conflict when one of the two is exclusive.** -/
def Conflict (lock other : Lock) : Prop :=
  lock.resource = other.resource ∧ (lock.mode = .exclusive ∨ other.mode = .exclusive)

theorem Conflict.symm {lock other : Lock} (clash : lock.Conflict other) : other.Conflict lock :=
  ⟨clash.1.symm, clash.2.symm⟩

end Lock

/-- A call of the lock manager. -/
inductive LockCall
  | acquireLock (txnId : TxnId) (resource : Str) (mode : LockMode)
  | releaseAll (txnId : TxnId)
  deriving DecidableEq, Repr

/-- The table after some calls, and what was granted and released. -/
structure LockTrace where
  locks : LockManager := ∅
  history : List (Event Lock TxnId) := []

namespace LockTrace

def call (call : LockCall) (trace : LockTrace) : LockTrace :=
  match call with
  | .acquireLock txnId resource mode =>
    let (granted, locks) := trace.locks.acquireLock txnId resource mode
    { locks
      history := if granted then trace.history ++ [.grant ⟨txnId, resource, mode⟩]
                 else trace.history }
  | .releaseAll txnId =>
    { locks := trace.locks.releaseAll txnId, history := trace.history ++ [.release txnId] }

/-- **Calls on an empty table.** -/
def ofCalls (calls : List LockCall) : LockTrace := calls.foldl (fun trace c => trace.call c) {}

end LockTrace

/-! ### What each call does to a resource's entries -/

section Entries

namespace LockManager

theorem entriesOf_insert (locks : LockManager) (resource other : Str) (entries : List LockEntry) :
    entriesOf (locks.insert resource entries) other =
      if other = resource then entries else locks.entriesOf other := by
  unfold entriesOf
  by_cases same : other = resource
  · rw [if_pos same, same, Finmap.lookup_insert, Option.getD_some]
  · rw [if_neg same, Finmap.lookup_insert_of_ne _ same]

theorem entriesOf_releaseAll (txnId : TxnId) (locks : LockManager) (resource : Str) :
    (locks.releaseAll txnId).entriesOf resource =
      withoutHolder txnId (locks.entriesOf resource) := by
  have found : (locks.releaseAll txnId).lookup resource =
      (locks.lookup resource).map (withoutHolder txnId) := by
    ext entries
    rw [Option.mem_def.symm, Option.mem_def.symm, Finmap.mem_lookup_iff, Option.mem_map]
    unfold releaseAll
    rw [Multiset.mem_map]
    constructor
    · rintro ⟨⟨_, old⟩, member, same⟩
      cases same
      exact ⟨old, Finmap.mem_lookup_iff.mpr member, rfl⟩
    · rintro ⟨old, member, rfl⟩
      exact ⟨⟨resource, old⟩, Finmap.mem_lookup_iff.mp member, rfl⟩
  unfold entriesOf
  rw [found]
  cases locks.lookup resource <;> rfl

/-- A request is granted when no entry stands in its way. -/
theorem acquireLock_granted_iff {txnId : TxnId} {resource : Str} {mode : LockMode}
    {locks : LockManager} :
    (locks.acquireLock txnId resource mode).1 = true ↔
      ∀ entry ∈ locks.entriesOf resource, entry.holder ≠ txnId →
        ¬ (entry.mode = .exclusive ∨ mode = .exclusive) := by
  have clear : (locks.entriesOf resource).any (conflicts txnId mode) = false ↔
      ∀ entry ∈ locks.entriesOf resource, entry.holder ≠ txnId →
        ¬ (entry.mode = .exclusive ∨ mode = .exclusive) := by
    rw [List.any_eq_false]
    refine forall₂_congr fun entry _ => ?_
    simp only [conflicts, Bool.and_eq_true, Bool.or_eq_true, decide_eq_true_eq, not_and]
    rw [or_comm]
  rw [← clear]
  unfold acquireLock
  dsimp only
  split
  · rename_i blocked
    simp [blocked]
  · rename_i free
    simpa using free

/-- The entries after a request. -/
theorem entriesOf_acquireLock (txnId : TxnId) (resource other : Str) (mode : LockMode)
    (locks : LockManager) :
    (locks.acquireLock txnId resource mode).2.entriesOf other =
      if (locks.acquireLock txnId resource mode).1 = true ∧ other = resource then
        locks.entriesOf other ++ [⟨txnId, mode⟩]
      else locks.entriesOf other := by
  by_cases blocked : (locks.entriesOf resource).any (conflicts txnId mode) = true
  · have denied : locks.acquireLock txnId resource mode =
        (false, locks.insert resource (locks.entriesOf resource)) := if_pos blocked
    rw [denied, entriesOf_insert]
    by_cases same : other = resource
    · simp [same]
    · simp [same]
  · have granted : locks.acquireLock txnId resource mode =
        (true, locks.insert resource (locks.entriesOf resource ++ [⟨txnId, mode⟩])) :=
          if_neg blocked
    rw [granted, entriesOf_insert]
    by_cases same : other = resource
    · rw [if_pos same, if_pos ⟨rfl, same⟩, same]
    · rw [if_neg same, if_neg fun both => same both.2]

end LockManager

end Entries

/-! ### The table and its history -/

section Invariant

/-- **The table agrees with its history**: its entries are the outstanding locks, and nothing was
granted against an outstanding lock. -/
structure LockTrace.Agrees (trace : LockTrace) : Prop where
  mem_iff : ∀ resource entry, entry ∈ trace.locks.entriesOf resource ↔
    Outstanding Lock.holder trace.history ⟨entry.holder, resource, entry.mode⟩
  disciplined : Disciplined Lock.holder Lock.Conflict trace.history

/-- Granted means free of conflicts with what the others hold. -/
theorem LockTrace.Agrees.granted_iff {trace : LockTrace} (agrees : trace.Agrees) (lock : Lock) :
    (trace.locks.acquireLock lock.holder lock.resource lock.mode).1 = true ↔
      Free Lock.holder Lock.Conflict trace.history lock := by
  rw [LockManager.acquireLock_granted_iff]
  constructor
  · intro clear other held different clash
    obtain ⟨holder, resource, mode⟩ := other
    have member : ⟨holder, mode⟩ ∈ trace.locks.entriesOf lock.resource :=
      (agrees.mem_iff _ _).mpr (clash.1 ▸ held)
    exact clear _ member different clash.2
  · intro free entry member different clash
    exact free _ ((agrees.mem_iff _ _).mp member) different ⟨rfl, clash⟩

/-- **A call keeps the table in agreement with its history.** -/
theorem LockTrace.Agrees.call {trace : LockTrace} (agrees : trace.Agrees) (call : LockCall) :
    (trace.call call).Agrees := by
  cases call with
  | acquireLock txnId resource mode =>
    have entries :=
      fun other => LockManager.entriesOf_acquireLock txnId resource other mode trace.locks
    by_cases granted : (trace.locks.acquireLock txnId resource mode).1 = true
    · have history : (trace.call (.acquireLock txnId resource mode)).history =
          trace.history ++ [.grant ⟨txnId, resource, mode⟩] := if_pos granted
      have free := (agrees.granted_iff ⟨txnId, resource, mode⟩).mp granted
      refine ⟨fun other entry => ?_, history ▸ .grant agrees.disciplined free⟩
      show entry ∈ (trace.locks.acquireLock txnId resource mode).2.entriesOf other ↔ _
      rw [history, entries, outstanding_grant, ← agrees.mem_iff]
      by_cases same : other = resource
      · rw [if_pos ⟨granted, same⟩, List.mem_append, List.mem_singleton, same]
        obtain ⟨holder, held⟩ := entry
        simp
      · rw [if_neg fun both => same both.2]
        simp [same]
    · have history : (trace.call (.acquireLock txnId resource mode)).history = trace.history :=
        if_neg granted
      refine ⟨fun other entry => ?_, history ▸ agrees.disciplined⟩
      show entry ∈ (trace.locks.acquireLock txnId resource mode).2.entriesOf other ↔ _
      rw [history, entries, if_neg fun both => granted both.1]
      exact agrees.mem_iff other entry
  | releaseAll txnId =>
    refine ⟨fun resource entry => ?_, .release txnId agrees.disciplined⟩
    show entry ∈ (trace.locks.releaseAll txnId).entriesOf resource ↔
      Outstanding Lock.holder (trace.history ++ [.release txnId]) _
    rw [LockManager.entriesOf_releaseAll, outstanding_release, ← agrees.mem_iff]
    simp [LockManager.withoutHolder]

theorem LockTrace.agrees_ofCalls (calls : List LockCall) : (LockTrace.ofCalls calls).Agrees := by
  have start : LockTrace.Agrees {} := ⟨fun resource entry => by
    simp [LockManager.entriesOf, not_outstanding_nil], .nil⟩
  unfold LockTrace.ofCalls
  generalize ({} : LockTrace) = trace at start
  induction calls generalizing trace with
  | nil => exact start
  | cons call rest ih => exact ih _ (start.call call)

end Invariant

/-! ### Safety and precision -/

section Safety

/-- **A resource is locked** when a lock on it was granted and is not yet released. -/
theorem isLocked_iff (calls : List LockCall) (resource : Str) :
    LockManager.isLocked resource (LockTrace.ofCalls calls).locks = true ↔
      ∃ lock, Outstanding Lock.holder (LockTrace.ofCalls calls).history lock ∧
        lock.resource = resource := by
  have agrees := LockTrace.agrees_ofCalls calls
  unfold LockManager.isLocked
  rw [Bool.not_eq_true', List.isEmpty_eq_false_iff_exists_mem]
  constructor
  · rintro ⟨entry, member⟩
    exact ⟨_, (agrees.mem_iff resource entry).mp member, rfl⟩
  · rintro ⟨⟨holder, _, mode⟩, held, rfl⟩
    exact ⟨⟨holder, mode⟩, (agrees.mem_iff _ _).mpr held⟩

/-- **The lock table is safe and precise.** After any calls: no resource has an exclusive entry next
to another transaction's; the next request is granted if and only if no other transaction's lock on
the resource, granted and not yet released, conflicts with it; a denied request leaves every entry,
and a release every other transaction's. -/
theorem lockTable_safe (calls : List LockCall) :
    let trace := LockTrace.ofCalls calls
    (∀ resource, ∀ entry ∈ trace.locks.entriesOf resource,
      ∀ other ∈ trace.locks.entriesOf resource,
        entry.mode = .exclusive → other.holder = entry.holder) ∧
    (∀ lock : Lock, (trace.locks.acquireLock lock.holder lock.resource lock.mode).1 = true ↔
      ∀ other, Outstanding Lock.holder trace.history other → other.holder ≠ lock.holder →
        ¬ other.Conflict lock) ∧
    (∀ txnId resource mode, (trace.locks.acquireLock txnId resource mode).1 = false →
      ∀ other, (trace.locks.acquireLock txnId resource mode).2.entriesOf other =
        trace.locks.entriesOf other) ∧
    ∀ txnId resource, (trace.locks.releaseAll txnId).entriesOf resource =
      (trace.locks.entriesOf resource).filter fun entry => entry.holder ≠ txnId := by
  intro trace
  have agrees : trace.Agrees := LockTrace.agrees_ofCalls calls
  refine ⟨fun resource entry member other member' isExclusive => ?_, agrees.granted_iff,
    fun txnId resource mode denied other => ?_, fun txnId resource =>
      LockManager.entriesOf_releaseAll txnId trace.locks resource⟩
  · by_contra different
    have held := (agrees.mem_iff resource entry).mp member
    have held' := (agrees.mem_iff resource other).mp member'
    exact agrees.disciplined.safe Lock.Conflict.symm held held' (Ne.symm different)
      ⟨rfl, Or.inl isExclusive⟩
  · rw [LockManager.entriesOf_acquireLock, if_neg]
    rw [denied]
    simp

end Safety

end MyDb
