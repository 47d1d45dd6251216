/-
**The lock table** (`src/lock_manager.cpp`).

Each call runs under the manager's mutex, so a call is one step. A request does not wait: it is
granted or denied at once. It is denied when another transaction has an entry on the resource and
one of the two is exclusive; the requester's own entries never stand in its way, so a transaction
may get one resource many times, and in both modes. `releaseAll` drops a transaction's entries
everywhere. The table is a map from resources to entries, and the order in which `releaseAll` goes
over it makes no difference.
-/

import MyDatabaseEngine.Txn.Transaction

namespace MyDb

inductive LockMode
  | shared
  | exclusive
  deriving DecidableEq, Repr

structure LockEntry where
  holder : TxnId
  mode : LockMode
  deriving DecidableEq, Repr

/-- `locks_`: the entries of each resource, in the order they were granted. -/
abbrev LockManager := Finmap fun _ : Str => List LockEntry

namespace LockManager

/-- `locks_[resource]` read. -/
def entriesOf (locks : LockManager) (resource : Str) : List LockEntry :=
  (locks.lookup resource).getD []

/-- Whether an entry stands in the way of a request. -/
def conflicts (txnId : TxnId) (mode : LockMode) (entry : LockEntry) : Bool :=
  entry.holder ≠ txnId && (mode = .exclusive || entry.mode = .exclusive)

/-- `acquireLock`. The resource's entry list is created even when the request is denied. -/
def acquireLock (txnId : TxnId) (resource : Str) (mode : LockMode) (locks : LockManager) :
    Bool × LockManager :=
  let entries := locks.entriesOf resource
  if entries.any (conflicts txnId mode) then (false, locks.insert resource entries)
  else (true, locks.insert resource (entries ++ [⟨txnId, mode⟩]))

/-- Drop the holder's entries in every list. -/
def withoutHolder (txnId : TxnId) (entries : List LockEntry) : List LockEntry :=
  entries.filter fun entry => entry.holder ≠ txnId

/-- `releaseAll`: every resource's list, in whatever order the map yields them. -/
def releaseAll (txnId : TxnId) (locks : LockManager) : LockManager where
  entries := locks.entries.map fun e => ⟨e.1, withoutHolder txnId e.2⟩
  nodupKeys := by
    have keys : Multiset.keys (locks.1.map fun e =>
        (⟨e.1, withoutHolder txnId e.2⟩ : Σ _ : Str, List LockEntry)) = Multiset.keys locks.1 := by
      simp [Multiset.keys, Multiset.map_map]
    rw [← Multiset.nodup_keys, keys, Multiset.nodup_keys]
    exact locks.2

/-- `isLocked`. -/
def isLocked (resource : Str) (locks : LockManager) : Bool := !(locks.entriesOf resource).isEmpty

end LockManager

end MyDb
