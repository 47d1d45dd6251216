/-
**The operators `Executor::build` makes.**

With a snapshot or without, an operator is built from the operators of its children
(`build_induction`), and all that can stop a plan is a table that is not there (`build_eq`): the
first one, in the order in which the children are built, is the one the exception names.

`build_induction` is the induction over plans that the theorems about pipelines go by. A property of
an operator and its plan holds of every operator that is built, if it holds of the scans of tables
that are there, and is handed on by each kind of operator.
-/

import MyDatabaseEngine.Exec.Denotation

namespace MyDb.Executor

variable {stdSort : StdSort Row} {storage : TableStorage} {snapshot? : Option MvccSnapshot}

/-- **Induction on a plan and the operator built for it.** -/
theorem build_induction {P : PhysicalPlan → Operator → Prop}
    (seqScan : ∀ tableName op, build stdSort storage snapshot? (.seqScan tableName) = .ok op →
      P (.seqScan tableName) op)
    (filter : ∀ predicate child op, P child op → P (.filter predicate child) (op.filter predicate))
    (projection : ∀ columns child op, P child op →
      P (.projection columns child) (op.projection columns))
    (sort : ∀ orderBy child op, P child op → P (.sort orderBy child) (.sort stdSort op orderBy))
    (limit : ∀ count child op, P child op → P (.limit count child) (op.limit count))
    (hashJoin : ∀ buildKey probeKey buildPlan probePlan buildOp probeOp, P buildPlan buildOp →
      P probePlan probeOp →
      P (.hashJoin buildKey probeKey buildPlan probePlan)
      (.hashJoin buildOp probeOp buildKey probeKey))
    (plan : PhysicalPlan) :
    ∀ op, build stdSort storage snapshot? plan = .ok op → P plan op := by
  induction plan with
  | seqScan tableName => exact seqScan tableName
  | filter predicate child ih =>
    intro op built
    obtain ⟨childOp, childBuilt, made⟩ := Operator.bind_eq_ok built
    cases made
    exact filter predicate child childOp (ih childOp childBuilt)
  | projection columns child ih =>
    intro op built
    obtain ⟨childOp, childBuilt, made⟩ := Operator.bind_eq_ok built
    cases made
    exact projection columns child childOp (ih childOp childBuilt)
  | sort orderBy child ih =>
    intro op built
    obtain ⟨childOp, childBuilt, made⟩ := Operator.bind_eq_ok built
    cases made
    exact sort orderBy child childOp (ih childOp childBuilt)
  | limit count child ih =>
    intro op built
    obtain ⟨childOp, childBuilt, made⟩ := Operator.bind_eq_ok built
    cases made
    exact limit count child childOp (ih childOp childBuilt)
  | hashJoin buildKey probeKey buildPlan probePlan ihBuild ihProbe =>
    intro op built
    obtain ⟨buildOp, buildBuilt, more⟩ := Operator.bind_eq_ok built
    obtain ⟨probeOp, probeBuilt, made⟩ := Operator.bind_eq_ok more
    cases made
    exact hashJoin buildKey probeKey buildPlan probePlan buildOp probeOp
      (ihBuild buildOp buildBuilt)
      (ihProbe probeOp probeBuilt)

/-- **What stops a plan**: the first of its tables that is not there. -/
theorem build_eq (snapshot? : Option MvccSnapshot) (plan : PhysicalPlan) :
    match plan.tables.find? fun table => (storage.lookup table).isNone with
    | some table => build stdSort storage snapshot? plan =
        .error (.runtimeError (str "Table not found: " ++ table))
    | none => ∃ op, build stdSort storage snapshot? plan = .ok op := by
  induction plan with
  | seqScan tableName =>
    rw [build, PhysicalPlan.tables, List.find?_singleton]
    cases found : storage.lookup tableName with
    | none => rfl
    | some rows => cases snapshot? <;> exact ⟨_, rfl⟩
  | filter _ child ih | projection _ child ih | sort _ child ih | limit _ child ih =>
    rw [build, PhysicalPlan.tables]
    revert ih
    cases child.tables.find? fun table => (storage.lookup table).isNone with
    | some table =>
      intro stops
      dsimp only at stops ⊢
      rw [stops]
      rfl
    | none =>
      rintro ⟨op, built⟩
      rw [built]
      exact ⟨_, rfl⟩
  | hashJoin _ _ buildPlan probePlan ihBuild ihProbe =>
    rw [build, PhysicalPlan.tables, List.find?_append]
    revert ihBuild ihProbe
    cases buildPlan.tables.find? fun table => (storage.lookup table).isNone with
    | some table =>
      intro stops _
      dsimp only [Option.or] at stops ⊢
      rw [stops]
      rfl
    | none =>
      rintro ⟨buildOp, buildBuilt⟩
      rw [buildBuilt, Option.none_or]
      cases probePlan.tables.find? fun table => (storage.lookup table).isNone with
      | some table =>
        intro stops
        dsimp only at stops ⊢
        rw [stops]
        rfl
      | none =>
        rintro ⟨probeOp, probeBuilt⟩
        rw [probeBuilt]
        exact ⟨_, rfl⟩

end MyDb.Executor
