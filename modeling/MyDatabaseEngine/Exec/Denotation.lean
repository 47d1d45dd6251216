/-
**What a plan denotes, and that the pipeline computes it.**

`denote` gives each plan its list of rows, with no cursor and no buffer. `build_denotes`: the
operator built for a plan over storage that has its tables yields, once opened, exactly those rows,
whatever was pulled from it before.

There is a lemma for each operator: the rows that are left in it are a function of those left in its
child. For the join the function is a nested loop (`rest_reset_hashJoin`), since the bucket of a key
holds the rows with that key in the order they were read (`lookup_buildTable`). The theorem is an
induction over the plan. `pipeline_denotes` says it of any state the operator may have been left in.
-/

import MyDatabaseEngine.Exec.Operator

namespace MyDb

open PullIterator

/-- The build rows a probe row meets. -/
def joins (buildKey probeKey : Str) (probeRow buildRow : Row) : Bool :=
  match probeRow.lookup probeKey with
  | some value => buildRow.lookup buildKey = some value
  | none => false

/-- **The rows of a plan.** -/
def denote (stdSort : StdSort Row) (storage : TableStorage) : PhysicalPlan → List Row
  | .seqScan tableName => storage.rows tableName
  | .filter predicate child => (denote stdSort storage child).filter (evaluateExpr predicate)
  | .projection columns child => (denote stdSort storage child).map (Operator.project columns)
  | .sort orderBy child => stdSort.sort (Operator.rowLess orderBy) (denote stdSort storage child)
  | .limit count child => (denote stdSort storage child).take count.toNat
  | .hashJoin buildKey probeKey build probe =>
    (denote stdSort storage probe).flatMap fun probeRow =>
      ((denote stdSort storage build).filter (joins buildKey probeKey probeRow)).map
        (Operator.joinRows probeRow)

/-- The tables a plan scans. -/
def PhysicalPlan.tables : PhysicalPlan → List Str
  | .seqScan tableName => [tableName]
  | .filter _ child => child.tables
  | .projection _ child => child.tables
  | .sort _ child => child.tables
  | .limit _ child => child.tables
  | .hashJoin _ _ build probe => build.tables ++ probe.tables

namespace Operator

/-! ### Each operator on its child's rows -/

section Operators

/-- The entry a cursor is at, and the entries from there on. -/
theorem drop_of_getElem? {rows : List Row} {cursor : Nat} {row : Row}
    (found : rows[cursor]? = some row) : rows.drop cursor = row :: rows.drop (cursor + 1) := by
  obtain ⟨inside, rfl⟩ := List.getElem?_eq_some_iff.mp found
  exact List.drop_eq_getElem_cons inside

theorem rest_seqScan (rows : List Row) (cursor : Nat) :
    (seqScan rows).rest cursor = rows.drop cursor := by
  refine rest_unique (seqScan rows) (fun cursor : Nat => rows.drop cursor)
    (fun (cursor cursor' : Nat) done => ?_)
    (fun (cursor : Nat) row (cursor' : Nat) pulled => ?_) cursor
  · dsimp only [seqScan] at done
    split at done
    · rename_i past
      exact List.drop_eq_nil_of_le (List.getElem?_eq_none_iff.mp past)
    · cases done
  · dsimp only [seqScan] at pulled
    split at pulled
    · cases pulled
    · rename_i found
      cases pulled
      exact drop_of_getElem? found

theorem rest_filter (child : Operator) (predicate : Expr) (s : child.State) :
    (filter child predicate).rest s = (child.rest s).filter (evaluateExpr predicate) := by
  refine rest_unique (filter child predicate)
    (fun s : child.State => (child.rest s).filter (evaluateExpr predicate))
    (fun (s s' : child.State) done => ?_)
      (fun (s : child.State) row (s' : child.State) pulled => ?_) s
  · dsimp only [filter] at done
    rw [filter_rest_pullUntil, done]
  · dsimp only [filter] at pulled
    rw [filter_rest_pullUntil, pulled]

theorem rest_projection (child : Operator) (columns : List Str) (s : child.State) :
    (projection child columns).rest s = (child.rest s).map (project columns) := by
  refine rest_unique (projection child columns)
    (fun s : child.State => (child.rest s).map (project columns))
    (fun (s s' : child.State) done => ?_)
      (fun (s : child.State) row (s' : child.State) pulled => ?_) s
  · dsimp only [projection] at done
    split at done
    · rename_i next
      rw [rest_of_none next, List.map_nil]
    · cases done
  · dsimp only [projection] at pulled
    split at pulled
    · cases pulled
    · rename_i next
      cases pulled
      rw [rest_of_some next, List.map_cons]

theorem rest_sort (stdSort : StdSort Row) (child : Operator) (orderBy : List OrderByClause)
    (s : SortState child) :
    (sort stdSort child orderBy).rest s = s.buffered.drop s.cursor := by
  refine rest_unique (sort stdSort child orderBy)
    (fun s : SortState child => s.buffered.drop s.cursor)
    (fun (s s' : SortState child) done => ?_)
    (fun (s : SortState child) row (s' : SortState child) pulled => ?_) s
  · dsimp only [sort] at done
    split at done
    · rename_i past
      exact List.drop_eq_nil_of_le (List.getElem?_eq_none_iff.mp past)
    · cases done
  · dsimp only [sort] at pulled
    split at pulled
    · cases pulled
    · rename_i found
      cases pulled
      exact drop_of_getElem? found

theorem rest_limit (child : Operator) (count : Int) (s : child.State × Int) :
    (limit child count).rest s = (child.rest s.1).take (count - s.2).toNat := by
  refine rest_unique (limit child count)
    (fun s : child.State × Int => (child.rest s.1).take (count - s.2).toNat)
    (fun (s s' : child.State × Int) done => ?_)
    (fun (s : child.State × Int) row (s' : child.State × Int) pulled => ?_) s
  · dsimp only [limit] at done
    split at done
    · rename_i full
      rw [show (count - s.2).toNat = 0 by omega, List.take_zero]
    · split at done
      · rename_i next
        rw [rest_of_none next, List.take_nil]
      · cases done
  · dsimp only [limit] at pulled
    split at pulled
    · cases pulled
    · rename_i notFull
      split at pulled
      · cases pulled
      · rename_i next
        cases pulled
        have more : (count - s.2).toNat = (count - (s.2 + 1)).toNat + 1 := by omega
        rw [rest_of_some next, more, List.take_succ_cons]

/-- What a hash table gives for a probe row. -/
def hits (table : HashTable) (probeKey : Str) (probeRow : Row) : List Row :=
  ((probeRow.lookup probeKey).bind table.lookup).getD []

theorem rest_hashJoin (build probe : Operator) (buildKey probeKey : Str)
    (s : JoinState build probe) :
    (hashJoin build probe buildKey probeKey).rest s =
      (s.currentMatches.drop s.probeCursor).map (joinRows s.probeRow) ++
        (probe.rest s.probe).flatMap fun row =>
          (hits s.hashTable probeKey row).map (joinRows row) := by
  have spec : ∀ (n : Nat) (s : JoinState build probe), probe.bound s.probe = n →
      (s.currentMatches.drop s.probeCursor).map (joinRows s.probeRow) ++
        ((probe.rest s.probe).flatMap fun row =>
          (hits s.hashTable probeKey row).map (joinRows row)) =
      match joinNext probeKey s with
      | (none, _) => []
      | (some row, s') => row ::
        ((s'.currentMatches.drop s'.probeCursor).map (joinRows s'.probeRow) ++
          (probe.rest s'.probe).flatMap fun row =>
            (hits s'.hashTable probeKey row).map (joinRows row)) := by
    intro n
    induction n using Nat.strongRecOn with
    | ind n ih =>
      intro s bound
      cases left : s.currentMatches[s.probeCursor]? with
      | some buildRow =>
        rw [joinNext_match left, drop_of_getElem? left, List.map_cons, List.cons_append]
      | none =>
        rw [List.drop_eq_nil_of_le (List.getElem?_eq_none_iff.mp left), List.map_nil,
          List.nil_append]
        rcases next : probe.next s.probe with ⟨row?, probe'⟩
        cases row? with
        | none => rw [joinNext_done left next, rest_of_none next, List.flatMap_nil]
        | some probeRow =>
          have lower := bound ▸ probe.decreases _ _ _ next
          rw [joinNext_probe left next, rest_of_some next, List.flatMap_cons, hits]
          cases hit : (probeRow.lookup probeKey).bind s.hashTable.lookup with
          | none =>
            rw [← ih _ lower _ rfl]
            simp [List.drop_eq_nil_of_le (List.getElem?_eq_none_iff.mp left)]
          | some bucket =>
            rw [← ih _ lower _ rfl]
            simp
  refine rest_unique (hashJoin build probe buildKey probeKey) (fun s : JoinState build probe =>
      (s.currentMatches.drop s.probeCursor).map (joinRows s.probeRow) ++
        (probe.rest s.probe).flatMap fun row => (hits s.hashTable probeKey row).map (joinRows row))
    (fun (s s' : JoinState build probe) done => ?_)
    (fun (s : JoinState build probe) row (s' : JoinState build probe) pulled => ?_) s
  · dsimp only [hashJoin] at done
    rw [spec _ s rfl, done]
  · dsimp only [hashJoin] at pulled
    rw [spec _ s rfl, pulled]

/-- **The hash table holds, for each key, the build rows with it, in order.** -/
theorem lookup_buildTable (buildKey : Str) (rows : List Row) (value : Str) :
    ((buildTable buildKey rows).lookup value).getD [] =
      rows.filter fun row => row.lookup buildKey = some value := by
  induction rows using List.reverseRecOn with
  | nil => rfl
  | append_singleton rows row ih =>
    have step : buildTable buildKey (rows ++ [row]) =
        match row.lookup buildKey with
        | some key => (buildTable buildKey rows).insert key
            (((buildTable buildKey rows).lookup key).getD [] ++ [row])
        | none => buildTable buildKey rows := by
      unfold buildTable
      rw [List.foldl_append]
      rfl
    rw [step, List.filter_append]
    cases hasKey : row.lookup buildKey with
    | none => simp [hasKey, ih]
    | some key =>
      by_cases same : value = key
      · subst same
        simp [hasKey, Finmap.lookup_insert, ih]
      · simp [hasKey, Finmap.lookup_insert_of_ne _ same, ih, Ne.symm same]

theorem hits_buildTable (buildKey probeKey : Str) (probeRow : Row) (rows : List Row) :
    hits (buildTable buildKey rows) probeKey probeRow =
      rows.filter (joins buildKey probeKey probeRow) := by
  unfold hits joins
  cases probeRow.lookup probeKey with
  | none => simp
  | some value => exact lookup_buildTable buildKey rows value

/-- **An opened join is a nested loop** over the probe rows and the build rows. -/
theorem rest_reset_hashJoin (build probe : Operator) (buildKey probeKey : Str)
    (s : JoinState build probe) :
    (hashJoin build probe buildKey probeKey).rest
      ((hashJoin build probe buildKey probeKey).reset s) =
      (probe.rest (probe.reset s.probe)).flatMap fun probeRow =>
        ((build.rest (build.reset s.build)).filter (joins buildKey probeKey probeRow)).map
          (joinRows probeRow) := by
  refine (rest_hashJoin build probe buildKey probeKey _).trans ?_
  refine congrArg (List.flatMap · _) (funext fun probeRow => congrArg (List.map _) ?_)
  exact hits_buildTable buildKey probeKey probeRow _

end Operators

/-! ### The pipeline -/

section Pipeline

/-- A step that succeeded, and what it was followed by. -/
theorem bind_eq_ok {α γ : Type 1} {first : Except Fault α} {next : α → Except Fault γ} {result : γ}
    (done : (do next (← first)) = .ok result) :
    ∃ value, first = .ok value ∧ next value = .ok result := by
  cases first with
  | error fault => cases done
  | ok value => exact ⟨value, rfl, done⟩

/-- **The operator of a plan yields the plan's rows once opened**, from whatever state. -/
theorem build_denotes (stdSort : StdSort Row) (storage : TableStorage) :
    ∀ (plan : PhysicalPlan) (op : Operator),
      Executor.build stdSort storage none plan = .ok op →
      ∀ s : op.State, op.rest (op.reset s) = denote stdSort storage plan := by
  intro plan
  induction plan with
  | seqScan tableName =>
    intro op built s
    rw [Executor.build] at built
    split at built
    · cases built
    · rename_i rows found
      cases built
      rw [denote, TableStorage.rows_of_lookup found]
      exact rest_seqScan rows 0
  | filter predicate child ih =>
    intro op built s
    obtain ⟨childOp, childBuilt, made⟩ := bind_eq_ok built
    cases made
    exact (rest_filter childOp predicate _).trans
      (congrArg (List.filter _) (ih childOp childBuilt s))
  | projection columns child ih =>
    intro op built s
    obtain ⟨childOp, childBuilt, made⟩ := bind_eq_ok built
    cases made
    exact (rest_projection childOp columns _).trans
      (congrArg (List.map _) (ih childOp childBuilt s))
  | sort orderBy child ih =>
    intro op built s
    obtain ⟨childOp, childBuilt, made⟩ := bind_eq_ok built
    cases made
    refine (rest_sort stdSort childOp orderBy _).trans ?_
    rw [denote, ← ih childOp childBuilt s.child]
    rfl
  | limit count child ih =>
    intro op built s
    obtain ⟨childOp, childBuilt, made⟩ := bind_eq_ok built
    cases made
    refine (rest_limit childOp count _).trans ?_
    rw [denote, ← ih childOp childBuilt s.1]
    show (childOp.rest (childOp.reset s.1)).take (count - 0).toNat = _
    rw [sub_zero]
  | hashJoin buildKey probeKey buildPlan probePlan ihBuild ihProbe =>
    intro op built s
    obtain ⟨buildOp, buildBuilt, more⟩ := bind_eq_ok built
    obtain ⟨probeOp, probeBuilt, made⟩ := bind_eq_ok more
    cases made
    rw [denote, ← ihProbe probeOp probeBuilt s.probe, ← ihBuild buildOp buildBuilt s.build]
    exact rest_reset_hashJoin buildOp probeOp buildKey probeKey s

/-- A plan over tables that are there has an operator. -/
theorem exists_build (stdSort : StdSort Row) {storage : TableStorage} {plan : PhysicalPlan}
    (present : ∀ table ∈ plan.tables, (storage.lookup table).isSome) :
    ∃ op, Executor.build stdSort storage none plan = .ok op := by
  induction plan with
  | seqScan tableName =>
    obtain ⟨rows, found⟩ :=
      Option.isSome_iff_exists.mp (present tableName (List.mem_singleton_self _))
    exact ⟨seqScan rows, by rw [Executor.build, found]⟩
  | filter _ _ ih | projection _ _ ih | sort _ _ ih | limit _ _ ih =>
    obtain ⟨op, built⟩ := ih present
    exact ⟨_, by rw [Executor.build, built]; rfl⟩
  | hashJoin _ _ _ _ ihBuild ihProbe =>
    obtain ⟨buildOp, buildBuilt⟩ := ihBuild fun table member =>
      present table (List.mem_append_left _ member)
    obtain ⟨probeOp, probeBuilt⟩ := ihProbe fun table member =>
      present table (List.mem_append_right _ member)
    exact ⟨_, by rw [Executor.build, buildBuilt, probeBuilt]; rfl⟩

/-- **`execute` returns the rows of the plan.** -/
theorem execute_denotes (stdSort : StdSort Row) {storage : TableStorage} {plan : PhysicalPlan}
    (present : ∀ table ∈ plan.tables, (storage.lookup table).isSome) :
    Executor.execute stdSort storage none plan = .ok (denote stdSort storage plan) := by
  obtain ⟨op, built⟩ := exists_build stdSort present
  rw [Executor.execute, built]
  exact congrArg Except.ok (build_denotes stdSort storage plan op built op.start)

/-- **What a plan asks of its rows**, with nothing said about how `std::sort` works: a sort yields a
sorted permutation of its input whenever its comparator is a strict weak order there. -/
def Denotes (storage : TableStorage) : PhysicalPlan → List Row → Prop
  | .seqScan tableName, out => out = storage.rows tableName
  | .filter predicate child, out =>
    ∃ rows, Denotes storage child rows ∧ out = rows.filter (evaluateExpr predicate)
  | .projection columns child, out =>
    ∃ rows, Denotes storage child rows ∧
      out = rows.map fun row => if columns = [str "*"] then row else restrict columns row
  | .sort orderBy child, out =>
    ∃ rows, Denotes storage child rows ∧ (StrictWeakOn (rowLess orderBy) rows →
      out.Perm rows ∧ out.Pairwise fun a b => rowLess orderBy b a = false)
  | .limit count child, out =>
    ∃ rows, Denotes storage child rows ∧ out = rows.take (max count 0).toNat
  | .hashJoin buildKey probeKey build probe, out =>
    ∃ buildRows probeRows, Denotes storage build buildRows ∧ Denotes storage probe probeRows ∧
      out = probeRows.flatMap fun probeRow =>
        (buildRows.filter (joins buildKey probeKey probeRow)).map fun buildRow =>
          probeRow ∪ buildRow

theorem denotes_denote (stdSort : StdSort Row) (storage : TableStorage) (plan : PhysicalPlan) :
    Denotes storage plan (denote stdSort storage plan) := by
  induction plan with
  | seqScan tableName => rfl
  | filter predicate child ih => exact ⟨_, ih, rfl⟩
  | projection columns child ih =>
    refine ⟨_, ih, congrArg (List.map · _) ?_⟩
    funext row
    unfold project isStar
    simp only [decide_eq_true_eq]
  | sort orderBy child ih => exact ⟨_, ih, stdSort.sorts _ _⟩
  | limit count child ih =>
    refine ⟨_, ih, congrArg (List.take · _) ?_⟩
    omega
  | hashJoin buildKey probeKey build probe ihBuild ihProbe => exact ⟨_, _, ihBuild, ihProbe, rfl⟩

/-- **The pipeline computes the plan.** A plan over tables that are there has an operator, and
opening it in whatever state it is left yields one list of rows, which is what the plan denotes. -/
theorem pipeline_denotes (stdSort : StdSort Row) {storage : TableStorage} {plan : PhysicalPlan}
    (present : ∀ table ∈ plan.tables, (storage.lookup table).isSome) :
    ∃ op rows, Executor.build stdSort storage none plan = .ok op ∧ Denotes storage plan rows ∧
      ∀ s : op.State, op.rest (op.reset s) = rows := by
  obtain ⟨op, built⟩ := exists_build stdSort present
  exact ⟨op, denote stdSort storage plan, built, denotes_denote stdSort storage plan,
    build_denotes stdSort storage plan op built⟩

/-- Users and their orders. -/
def joinedTables : TableStorage :=
  (((∅ : TableStorage).insert (str "users")
    [(∅ : Row).insert (str "id") (str "1"), (∅ : Row).insert (str "id") (str "2")]).insert
      (str "orders") [((∅ : Row).insert (str "id") (str "2")).insert (str "item") (str "pen")])

/-- The first user with orders, users and orders joined by id. -/
def joinedPlan : PhysicalPlan :=
  .limit 1 (.sort [⟨str "id", true⟩]
    (.hashJoin (str "id") (str "id") (.seqScan (str "orders")) (.seqScan (str "users"))))

theorem pipeline_denotes_joined :
    ∃ op rows, Executor.build default joinedTables none joinedPlan = .ok op ∧
      Denotes joinedTables joinedPlan rows ∧ ∀ s : op.State, op.rest (op.reset s) = rows :=
  pipeline_denotes default (by decide +kernel)

end Pipeline

end Operator

end MyDb
