/-
**The operators and the pipeline that drives them** (`include/operator.h` and the operators'
headers, `src/hash_join.cpp`, `Executor::build` and `Executor::execute`).

An `Operator` is a pull iterator of rows: `open` is its `reset`, and `close` changes nothing a later
call sees. `std::sort` is a parameter, any function with its contract (`StdSort`).

The state of an operator holds the states of its children. `filter` and the join pull until they
have a row or their child has none; the loops are bounded by what is left to pull, and the bound of
the join is given by its hash table (`joinBound`). `hashJoin` reads its whole build side when it is
opened, and keeps for a probe row the list of its matches and the next one to return. `build` makes
the operators of a plan from the leaves up, and `execute` opens, pulls to the end and closes.
-/

import MyDatabaseEngine.Exec.Eval
import MyDatabaseEngine.Exec.Plan
import MyDatabaseEngine.Lib.PullIterator
import MyDatabaseEngine.Lib.StdSort
import MyDatabaseEngine.Txn.Transaction
import Mathlib.Algebra.Order.BigOperators.Group.Multiset

namespace MyDb

/-- `Operator`. -/
abbrev Operator := PullIterator Row

/-! ### Row versions -/

/-- `VersionedRow`; `deletedBy` is 0 for a version that is not deleted. -/
structure VersionedRow where
  data : Row
  createdBy : TxnId
  deletedBy : TxnId

/-- `MvccSnapshot`. -/
structure MvccSnapshot where
  snapshotId : TxnId

/-- `MvccSnapshot::isVisible`. -/
def MvccSnapshot.isVisible (snapshot : MvccSnapshot) (version : VersionedRow) : Bool :=
  let created := version.createdBy ≤ snapshot.snapshotId
  let notDeleted := version.deletedBy = 0 ∨ version.deletedBy > snapshot.snapshotId
  created ∧ notDeleted

namespace Operator

/-! ### SeqScan -/

/-- `SeqScan` on plain rows; the state is the cursor. -/
def seqScan (rows : List Row) : Operator where
  State := Nat
  start := 0
  reset := fun _ => 0
  next := fun cursor =>
    match rows[cursor]? with
    | none => (none, cursor)
    | some row => (some row, cursor + 1)
  bound := fun cursor => rows.length - cursor
  decreases := by
    intro cursor row cursor' pulled
    split at pulled
    · cases pulled
    · rename_i found
      cases pulled
      have inside := (List.getElem?_eq_some_iff.mp found).1
      omega

/-- The loop of `SeqScan::next` with a snapshot, over the versions from the cursor on. -/
def nextVisible (snapshot : MvccSnapshot) : List VersionedRow → Nat → Option Row × Nat
  | [], cursor => (none, cursor)
  | version :: rest, cursor =>
    if snapshot.isVisible version then (some version.data, cursor + 1)
    else nextVisible snapshot rest (cursor + 1)

theorem nextVisible_cursor {snapshot : MvccSnapshot} {versions : List VersionedRow} {row : Row}
    {cursor cursor' : Nat} (found : nextVisible snapshot versions cursor = (some row, cursor')) :
    cursor < cursor' ∧ cursor' ≤ cursor + versions.length := by
  induction versions generalizing cursor with
  | nil => cases found
  | cons version rest ih =>
    rw [nextVisible] at found
    split at found
    · cases found
      simp
    · have later := ih found
      rw [List.length_cons]
      omega

/-- `SeqScan` under a snapshot. -/
def seqScanVersions (versions : List VersionedRow) (snapshot : MvccSnapshot) : Operator where
  State := Nat
  start := 0
  reset := fun _ => 0
  next := fun cursor => nextVisible snapshot (versions.drop cursor) cursor
  bound := fun cursor => versions.length - cursor
  decreases := by
    intro cursor row cursor' pulled
    have moved := nextVisible_cursor pulled
    rw [List.length_drop] at moved
    omega

/-! ### Filter -/

/-- `Filter`. -/
def filter (child : Operator) (predicate : Expr) : Operator where
  State := child.State
  start := child.start
  reset := child.reset
  next := child.pullUntil (evaluateExpr predicate)
  bound := child.bound
  decreases := fun _ _ _ found => PullIterator.bound_pullUntil found

/-! ### Projection -/

/-- `columns_.size() == 1 && columns_[0] == "*"`. -/
def isStar (columns : List Str) : Bool := columns = [str "*"]

/-- The row restricted to the columns it has among these. -/
def restrict (columns : List Str) (row : Row) : Row :=
  columns.foldl (fun projected col =>
    match row.lookup col with
    | some value => projected.insert col value
    | none => projected) ∅

/-- What `Projection::next` makes of a row. -/
def project (columns : List Str) (row : Row) : Row :=
  if isStar columns then row else restrict columns row

/-- `Projection`. -/
def projection (child : Operator) (columns : List Str) : Operator where
  State := child.State
  start := child.start
  reset := child.reset
  next := fun s =>
    match child.next s with
    | (none, s') => (none, s')
    | (some row, s') => (some (project columns row), s')
  bound := child.bound
  decreases := by
    intro s row s' pulled
    split at pulled
    · cases pulled
    · rename_i found
      cases pulled
      exact child.decreases _ _ _ found

/-! ### Sort -/

/-- `Sort::compareValues`: numbers when both convert, else text. -/
def compareOrder (a b : Str) : Int :=
  match stod a, stod b with
  | some da, some db => if da.lt db then -1 else if db.lt da then 1 else 0
  | _, _ => if a < b then -1 else if b < a then 1 else 0

/-- The comparator of `sortRows`. A row without the column counts as having an empty value there. -/
def rowLess : List OrderByClause → Row → Row → Bool
  | [], _, _ => false
  | clause :: rest, a, b =>
    let cmp := compareOrder ((a.lookup clause.column).getD []) ((b.lookup clause.column).getD [])
    if cmp ≠ 0 then (if clause.ascending then cmp < 0 else cmp > 0) else rowLess rest a b

/-- The fields of `Sort` that change. -/
structure SortState (child : Operator) where
  child : child.State
  buffered : List Row
  cursor : Nat

/-- `Sort`. -/
def sort (stdSort : StdSort Row) (child : Operator) (orderBy : List OrderByClause) : Operator where
  State := SortState child
  start := ⟨child.start, [], 0⟩
  reset := fun s =>
    let (buffered, last) := child.drain (child.reset s.child)
    ⟨last, stdSort.sort (rowLess orderBy) buffered, 0⟩
  next := fun s =>
    match s.buffered[s.cursor]? with
    | none => (none, s)
    | some row => (some row, { s with cursor := s.cursor + 1 })
  bound := fun s => s.buffered.length - s.cursor
  decreases := by
    intro s row s' pulled
    split at pulled
    · cases pulled
    · rename_i found
      cases pulled
      have inside := (List.getElem?_eq_some_iff.mp found).1
      show s.buffered.length - (s.cursor + 1) < s.buffered.length - s.cursor
      omega

/-! ### Limit -/

/-- `Limit`; the state is the child's and `seen_`. -/
def limit (child : Operator) (count : Int) : Operator where
  State := child.State × Int
  start := (child.start, 0)
  reset := fun s => (child.reset s.1, 0)
  next := fun s =>
    if s.2 ≥ count then (none, s)
    else
      match child.next s.1 with
      | (none, s') => (none, (s', s.2))
      | (some row, s') => (some row, (s', s.2 + 1))
  bound := fun s => child.bound s.1
  decreases := by
    intro s row s' pulled
    split at pulled
    · cases pulled
    · split at pulled
      · cases pulled
      · rename_i found
        cases pulled
        exact child.decreases _ _ _ found

/-! ### HashJoin -/

/-- `hashTable_`. -/
abbrev HashTable := Finmap fun _ : Str => List Row

/-- `hashTable_[key].push_back(row)` for every row that has the column. -/
def buildTable (buildKey : Str) (rows : List Row) : HashTable :=
  rows.foldl (fun table row =>
    match row.lookup buildKey with
    | some key => table.insert key ((table.lookup key).getD [] ++ [row])
    | none => table) ∅

/-- The probe row with the build row's other columns. -/
def joinRows (probeRow buildRow : Row) : Row := probeRow ∪ buildRow

/-- The fields of `HashJoin` that change. -/
structure JoinState (build probe : Operator) where
  build : build.State
  probe : probe.State
  hashTable : HashTable
  currentMatches : List Row
  probeRow : Row
  probeCursor : Nat

/-- The rows in all buckets. -/
def tableSize (table : HashTable) : Nat := (table.entries.map fun e => e.2.length).sum

theorem length_le_tableSize {table : HashTable} {key : Str} {bucket : List Row}
    (found : table.lookup key = some bucket) : bucket.length ≤ tableSize table := by
  have member : (⟨key, bucket⟩ : Σ _ : Str, List Row) ∈ table.entries :=
    Finmap.mem_lookup_iff.mp found
  exact Multiset.le_sum_of_mem (Multiset.mem_map_of_mem (fun e => e.2.length) member)

/-- The rows the matches at hand and the probe rows to come can still give. -/
def joinBound {build probe : Operator} (s : JoinState build probe) : Nat :=
  (s.currentMatches.length - s.probeCursor) + probe.bound s.probe * tableSize s.hashTable

/-- `HashJoin::next`. -/
def joinNext {build probe : Operator} (probeKey : Str) (s : JoinState build probe) :
    Option Row × JoinState build probe :=
  match s.currentMatches[s.probeCursor]? with
  | some buildRow =>
    (some (joinRows s.probeRow buildRow), { s with probeCursor := s.probeCursor + 1 })
  | none =>
    match _found : probe.next s.probe with
    | (none, probe') => (none, { s with probe := probe' })
    | (some row, probe') =>
      match (row.lookup probeKey).bind s.hashTable.lookup with
      | none => joinNext probeKey { s with probe := probe' }
      | some hit =>
        joinNext probeKey
          { s with probe := probe', probeRow := row, currentMatches := hit, probeCursor := 0 }
termination_by probe.bound s.probe
decreasing_by all_goals exact probe.decreases _ _ _ _found

section JoinNext

variable {build probe : Operator} {probeKey : Str} {s : JoinState build probe}

/-- A match is left. -/
theorem joinNext_match {buildRow : Row} (left : s.currentMatches[s.probeCursor]? = some buildRow) :
    joinNext probeKey s =
      (some (joinRows s.probeRow buildRow), { s with probeCursor := s.probeCursor + 1 }) := by
  rw [joinNext, left]

/-- No match and no probe row is left. -/
theorem joinNext_done {probe' : probe.State} (left : s.currentMatches[s.probeCursor]? = none)
    (done : probe.next s.probe = (none, probe')) :
    joinNext probeKey s = (none, { s with probe := probe' }) := by
  rw [joinNext, left]
  dsimp only
  split
  · rename_i done'
    rw [done] at done'
    cases done'
    rfl
  · rename_i found
    rw [done] at found
    cases found

/-- The next probe row, with the bucket it hits or without one. -/
theorem joinNext_probe {row : Row} {probe' : probe.State}
    (left : s.currentMatches[s.probeCursor]? = none)
    (found : probe.next s.probe = (some row, probe')) :
    joinNext probeKey s =
      match (row.lookup probeKey).bind s.hashTable.lookup with
      | none => joinNext probeKey { s with probe := probe' }
      | some hit => joinNext probeKey
          { s with probe := probe', probeRow := row, currentMatches := hit, probeCursor := 0 } := by
  rw [joinNext, left]
  dsimp only
  split
  · rename_i done
    rw [found] at done
    cases done
  · rename_i found'
    rw [found] at found'
    cases found'
    rfl

theorem joinNext_bound (s : JoinState build probe) (row : Row) (s' : JoinState build probe)
    (pulled : joinNext probeKey s = (some row, s')) : joinBound s' < joinBound s := by
  induction bound : probe.bound s.probe using Nat.strongRecOn generalizing s with
  | ind n ih =>
    cases left : s.currentMatches[s.probeCursor]? with
    | some buildRow =>
      have inside := (List.getElem?_eq_some_iff.mp left).1
      rw [joinNext_match left] at pulled
      cases pulled
      simp only [joinBound]
      omega
    | none =>
      have noMatch := List.getElem?_eq_none_iff.mp left
      rcases next : probe.next s.probe with ⟨row?, probe'⟩
      cases row? with
      | none =>
        rw [joinNext_done left next] at pulled
        cases pulled
      | some probeRow =>
        have lower := probe.decreases _ _ _ next
        -- one probe row fewer pays for a whole bucket
        have pays : probe.bound probe' * tableSize s.hashTable + tableSize s.hashTable ≤
            probe.bound s.probe * tableSize s.hashTable := by
          rw [← Nat.succ_mul]
          exact Nat.mul_le_mul_right _ lower
        rw [joinNext_probe left next] at pulled
        split at pulled
        · have smaller := ih _ (bound ▸ lower) _ pulled rfl
          simp only [joinBound] at smaller ⊢
          omega
        · rename_i hit found
          have smaller := ih _ (bound ▸ lower) _ pulled rfl
          obtain ⟨key, _, inTable⟩ := Option.bind_eq_some_iff.mp found
          have fits := length_le_tableSize inTable
          simp only [joinBound] at smaller ⊢
          omega

end JoinNext

/-- `HashJoin`. -/
def hashJoin (build probe : Operator) (buildKey probeKey : Str) : Operator where
  State := JoinState build probe
  start := ⟨build.start, probe.start, ∅, [], ∅, 0⟩
  reset := fun s =>
    let (rows, last) := build.drain (build.reset s.build)
    { s with
      build := last, probe := probe.reset s.probe
      hashTable := buildTable buildKey rows
      currentMatches := [], probeCursor := 0 }
  next := joinNext probeKey
  bound := joinBound
  decreases := joinNext_bound

end Operator

/-! ### The executor -/

namespace Executor

/-- `Executor::build`. -/
def build (stdSort : StdSort Row) (storage : TableStorage) (snapshot : Option MvccSnapshot) :
    PhysicalPlan → Except Fault Operator
  | .seqScan tableName =>
    match storage.lookup tableName with
    | none => .error (.runtimeError (str "Table not found: " ++ tableName))
    | some rows =>
      match snapshot with
      | some snapshot => .ok (.seqScanVersions (rows.map fun row => ⟨row, 1, 0⟩) snapshot)
      | none => .ok (.seqScan rows)
  | .filter predicate child => do
    .ok (.filter (← build stdSort storage snapshot child) predicate)
  | .projection columns child => do
    .ok (.projection (← build stdSort storage snapshot child) columns)
  | .sort orderBy child => do
    .ok (.sort stdSort (← build stdSort storage snapshot child) orderBy)
  | .limit count child => do
    .ok (.limit (← build stdSort storage snapshot child) count)
  | .hashJoin buildKey probeKey buildPlan probePlan => do
    let buildChild ← build stdSort storage snapshot buildPlan
    let probeChild ← build stdSort storage snapshot probePlan
    .ok (.hashJoin buildChild probeChild buildKey probeKey)

/-- `Executor::execute`: open, then pull until there is no row left. -/
def execute (stdSort : StdSort Row) (storage : TableStorage) (snapshot : Option MvccSnapshot)
    (plan : PhysicalPlan) : Except Fault (List Row) :=
  match build stdSort storage snapshot plan with
  | .error fault => .error fault
  | .ok op => .ok (op.rest (op.reset op.start))

end Executor

end MyDb
