/-
**Statements that do the same.**

Two statements with the same frame (table, columns, ORDER BY, LIMIT) differ in their expressions at
most. They return the same rows and leave the same tables, on every storage, exactly if their
expressions do the same to every single row (`effect_eq_iff`): a SELECT and a DELETE in what their
WHERE says of it, an UPDATE in what it makes of it, an INSERT in the values it stores.

The evaluator compares an operator's text with the operators it knows; any other text compares false
in a comparison and counts as true in front of an operand. So expressions that differ only in
operators it does not know do the same (`SameStatement.agreeOnRows`).
-/

import MyDatabaseEngine.Exec.AssignmentOrder
import MyDatabaseEngine.Exec.InsertPairing

namespace MyDb

/-! ### Frames and effects -/

/-- The same assignment, up to its expression. -/
def SameAssignment (same : Expr → Expr → Prop) (a a' : Str × Expr) : Prop :=
  a.1 = a'.1 ∧ same a.2 a'.2

/-- **The same statement, up to its expressions**, which are related; of a CREATE and a DROP only
the kind. -/
inductive SameStatement (same : Expr → Expr → Prop) : Statement → Statement → Prop
  | select {stmt : SelectStatement} {where? : Option Expr} : Option.Rel same stmt.where? where? →
      SameStatement same (.select stmt) (.select { stmt with where? })
  | insert {stmt : InsertStatement} {values : List Expr} : List.Forall₂ same stmt.values values →
      SameStatement same (.insert stmt) (.insert { stmt with values })
  | update {stmt : UpdateStatement} {assignments : List (Str × Expr)} {where? : Option Expr} :
      List.Forall₂ (SameAssignment same) stmt.assignments assignments →
      Option.Rel same stmt.where? where? →
      SameStatement same (.update stmt) (.update { stmt with assignments, where? })
  | delete {stmt : DeleteStatement} {where? : Option Expr} : Option.Rel same stmt.where? where? →
      SameStatement same (.delete stmt) (.delete { stmt with where? })
  | createTable (stmt stmt' : CreateTableStatement) :
      SameStatement same (.createTable stmt) (.createTable stmt')
  | dropTable (stmt stmt' : DropTableStatement) :
      SameStatement same (.dropTable stmt) (.dropTable stmt')

/-- The same statement with any expressions. -/
abbrev SameFrame : Statement → Statement → Prop := SameStatement fun _ _ => True

theorem SameStatement.frame {same : Expr → Expr → Prop} {stmt stmt' : Statement}
    (related : SameStatement same stmt stmt') : SameFrame stmt stmt' := by
  have where' : ∀ {e e' : Option Expr}, Option.Rel same e e' →
      Option.Rel (fun _ _ => True) e e' := by
    rintro e e' (_ | _)
    · exact .some trivial
    · exact .none
  cases related with
  | select related => exact .select (where' related)
  | insert related => exact .insert (related.imp fun _ _ _ => trivial)
  | update assigned related =>
    exact .update (assigned.imp fun _ _ a => ⟨a.1, trivial⟩) (where' related)
  | delete related => exact .delete (where' related)
  | createTable _ _ => exact .createTable _ _
  | dropTable _ _ => exact .dropTable _ _

/-- **What a statement does**: the rows a SELECT returns, the tables an INSERT, UPDATE or DELETE
leaves. A CREATE and a DROP do not go through the optimizer. -/
def effect (stdSort : StdSort Row) (storage : TableStorage) (txn : Option Transaction) :
    Statement → Option (Except Fault (List Row ⊕ TableStorage))
  | .select stmt => some (Sum.inl <$> runSelect stdSort storage stmt)
  | .insert stmt => some ((fun result => Sum.inr result.1) <$> executeInsert stmt storage txn)
  | .update stmt => some ((fun result => Sum.inr result.1) <$> executeUpdate stmt storage txn)
  | .delete stmt => some ((fun result => Sum.inr result.1) <$> executeDelete stmt storage txn)
  | .createTable _ => none
  | .dropTable _ => none

/-- **The stored values are the same texts**: of a column that is given twice the last value is
stored, and with fewer values than columns nothing is. -/
def SameStored (columns : List Str) (values values' : List Expr) : Prop :=
  values.length < columns.length ∨
    ∀ (k : Nat) column value value', columns[k]? = some column → column ∉ columns.drop (k + 1) →
      values[k]? = some value → values'[k]? = some value' →
        extractLiteral value = extractLiteral value'

/-- **The expressions do the same to every row.** A SELECT whose LIMIT is not positive returns no
row, whatever its WHERE. -/
def AgreeOnRows : Statement → Statement → Prop
  | .select stmt, .select stmt' => (∃ count ∈ stmt.limit, count ≤ 0) ∨
      ∀ row, matchesWhere stmt.where? row = matchesWhere stmt'.where? row
  | .insert stmt, .insert stmt' => SameStored stmt.columns stmt.values stmt'.values
  | .update stmt, .update stmt' => ∀ row, updatedRow stmt row = updatedRow stmt' row
  | .delete stmt, .delete stmt' =>
    ∀ row, matchesWhere stmt.where? row = matchesWhere stmt'.where? row
  | _, _ => True

/-! ### What single rows tell -/

section Effects

variable {storage : TableStorage}

/-- A SELECT from a table that is not there. -/
theorem runSelect_missing {stmt : SelectStatement} (stdSort : StdSort Row)
    (missing : storage.lookup stmt.table = none) :
    runSelect stdSort storage stmt = .error (tableNotFound stmt.table) := by
  have built : Executor.build stdSort storage none
      (Optimizer.toPhysical (Optimizer.buildSelect stmt)) = .error (tableNotFound stmt.table) := by
    unfold Optimizer.buildSelect Optimizer.scanWhere
    cases stmt.limit <;> cases stmt.orderBy.isEmpty <;> cases stmt.where? <;>
      simp only [Optimizer.toPhysical, Executor.build, Bool.false_eq_true, if_false, if_true,
        missing] <;> rfl
  show Executor.execute stdSort storage none (Optimizer.toPhysical (Optimizer.buildSelect stmt)) = _
  unfold Executor.execute
  rw [built]

/-- A SELECT without a positive LIMIT. -/
theorem denote_of_limit {stmt : SelectStatement} (stdSort : StdSort Row) (storage : TableStorage)
    (few : ∃ count ∈ stmt.limit, count ≤ 0) :
    denote stdSort storage (Optimizer.toPhysical (Optimizer.buildSelect stmt)) = [] := by
  obtain ⟨count, isLimit, small⟩ := few
  rw [denote_buildSelect, Option.mem_def.mp isLimit]
  unfold takeLimit
  dsimp only
  rw [Int.toNat_of_nonpos small, List.take_zero]

/-- The loop over the table, whatever transaction it logs to. -/
theorem deleteRows_fst (stmt : DeleteStatement) (rows : List Row) (txn : Option Transaction) :
    (deleteRows stmt rows txn).1 = rows.filter fun row => !matchesWhere stmt.where? row := by
  induction rows generalizing txn with
  | nil => rfl
  | cons row rest ih =>
    rw [deleteRows]
    by_cases hit : matchesWhere stmt.where? row = true
    · rw [if_pos hit, List.filter_cons_of_neg (by simp [hit]), ih]
    · rw [if_neg hit, List.filter_cons_of_pos (by simp [hit])]
      exact congrArg _ (ih txn)

/-- A column of the list has a last occurrence. -/
theorem exists_last_occurrence {column : Str} {columns : List Str} (member : column ∈ columns) :
    ∃ k, columns[k]? = some column ∧ column ∉ columns.drop (k + 1) := by
  induction columns with
  | nil => cases member
  | cons first rest ih =>
    by_cases later : column ∈ rest
    · obtain ⟨k, found, last⟩ := ih later
      exact ⟨k + 1, found, last⟩
    · obtain rfl := (List.mem_cons.mp member).resolve_right later
      exact ⟨0, rfl, later⟩

/-- **An INSERT builds the same row exactly if the values it stores are the same.** -/
theorem buildRow_eq_iff {columns : List Str} {values values' : List Expr}
    (length : values.length = values'.length) :
    buildRow columns values ∅ = buildRow columns values' ∅ ↔ SameStored columns values values' := by
  rcases Nat.lt_or_ge values.length columns.length with few | enough
  · rw [buildRow_of_lt few, buildRow_of_lt (length ▸ few)]
    exact iff_of_true rfl (.inl few)
  obtain ⟨built, done⟩ := @buildRow_of_le columns values ∅ enough
  obtain ⟨built', done'⟩ := @buildRow_of_le columns values' ∅ (length ▸ enough)
  rw [done, done', Except.ok.injEq]
  constructor
  · rintro rfl
    refine .inr fun k column value value' isColumn last isValue isValue' => ?_
    have stored := lookup_buildRow done isColumn last isValue
    exact Option.some.inj (stored.symm.trans (lookup_buildRow done' isColumn last isValue'))
  · rintro (few | same)
    · exact absurd few (Nat.not_lt.mpr enough)
    refine Finmap.ext_lookup fun column => ?_
    by_cases member : column ∈ columns
    · obtain ⟨k, isColumn, last⟩ := exists_last_occurrence member
      obtain ⟨within, -⟩ := List.getElem?_eq_some_iff.mp isColumn
      have isValue := List.getElem?_eq_getElem (Nat.lt_of_lt_of_le within enough)
      have isValue' := List.getElem?_eq_getElem (Nat.lt_of_lt_of_le within (length ▸ enough))
      rw [lookup_buildRow done isColumn last isValue, lookup_buildRow done' isColumn last isValue']
      exact congrArg some (same k column _ _ isColumn last isValue isValue')
    · rw [lookup_buildRow_of_not_mem done member, lookup_buildRow_of_not_mem done' member]

end Effects

/-! ### The same effect -/

section SameEffect

/-- A storage that holds one table. -/
def oneTable (table : Str) (rows : List Row) : TableStorage := (∅ : TableStorage).setRows table rows

theorem lookup_oneTable (table : Str) (rows : List Row) :
    (oneTable table rows).lookup table = some rows := Finmap.lookup_insert _

/-- Results that are the same once mapped by an injection. -/
theorem result_of_map {α β : Type} {f : α → β} (injective : Function.Injective f)
    {result result' : Except Fault α} (same : f <$> result = f <$> result') : result = result' := by
  cases result with
  | ok a =>
    cases result' with
    | ok a' => rw [injective (Except.ok.inj same)]
    | error fault' => cases same
  | error fault =>
    cases result' with
    | ok a' => cases same
    | error fault' => rw [Except.error.inj same]

/-- How many rows a SELECT returns from a table of one row, if its LIMIT allows for any. -/
theorem runSelect_single {stmt : SelectStatement} (many : ∀ count ∈ stmt.limit, 0 < count)
    (row : Row) :
    List.length <$> runSelect default (oneTable stmt.table [row]) stmt =
      .ok (if matchesWhere stmt.where? row then 1 else 0) := by
  have found := lookup_oneTable stmt.table [row]
  have limited : ∀ rows : List Row, rows.length ≤ 1 → takeLimit stmt.limit rows = rows := by
    intro rows few
    unfold takeLimit
    cases limit : stmt.limit with
    | none => rfl
    | some count =>
      have positive := many count limit
      exact List.take_of_length_le (by omega)
  rw [runSelect_eq default found, denote_buildSelect, TableStorage.rows_of_lookup found]
  by_cases hit : matchesWhere stmt.where? row = true
  · rw [List.filter_cons_of_pos hit, if_pos hit]
    cases stmt.orderBy.isEmpty <;> rw [limited] <;> rfl
  · rw [List.filter_cons_of_neg hit, if_neg hit]
    cases stmt.orderBy.isEmpty <;> rw [limited] <;> first | rfl | exact Nat.zero_le 1

theorem select_effect_iff {stmt stmt' : SelectStatement}
    (frame : SameFrame (.select stmt) (.select stmt')) :
    (∀ stdSort storage txn, effect stdSort storage txn (.select stmt) =
      effect stdSort storage txn (.select stmt')) ↔ AgreeOnRows (.select stmt) (.select stmt') := by
  cases frame with
  | @select _ where? _ =>
  constructor
  · intro same
    by_cases few : ∃ count ∈ stmt.limit, count ≤ 0
    · exact .inl few
    have many : ∀ count ∈ stmt.limit, 0 < count := fun count member =>
      Int.not_le.mp fun small => few ⟨count, member, small⟩
    refine .inr fun row => ?_
    have answers := result_of_map Sum.inl_injective
      (Option.some.inj (same default (oneTable stmt.table [row]) none))
    have left := runSelect_single many row
    rw [answers] at left
    have right : _ = Except.ok (if matchesWhere where? row then 1 else 0) :=
      @runSelect_single { stmt with where? } many row
    have counts := Except.ok.inj (left.symm.trans right)
    show matchesWhere stmt.where? row = matchesWhere where? row
    revert counts
    cases matchesWhere stmt.where? row <;> cases matchesWhere where? row <;> simp
  · intro agree stdSort storage txn
    unfold effect
    refine congrArg (fun result => some (Sum.inl <$> result)) ?_
    cases found : storage.lookup stmt.table with
    | none =>
      rw [runSelect_missing stdSort found]
      exact (@runSelect_missing storage { stmt with where? } stdSort found).symm
    | some rows =>
      rw [runSelect_eq stdSort found, @runSelect_eq storage { stmt with where? } rows stdSort found]
      rcases agree with few | agree
      · rw [denote_of_limit stdSort storage few]
        exact congrArg Except.ok (@denote_of_limit { stmt with where? } stdSort storage few).symm
      · rw [denote_buildSelect, denote_buildSelect, funext agree]

/-- **What a statement does that writes to the rows of a table.** -/
def WritesRows (stmt : Statement) (table : Str) (write : List Row → Except Fault (List Row)) :
    Prop :=
  ∀ stdSort storage txn, effect stdSort storage txn stmt =
    some (match storage.lookup table with
      | none => .error (tableNotFound table)
      | some rows => (fun rows => Sum.inr (storage.setRows table rows)) <$> write rows)

theorem writesRows_insert (stmt : InsertStatement) :
    WritesRows (.insert stmt) stmt.table fun rows =>
    (fun row => rows ++ [row]) <$> buildRow stmt.columns stmt.values ∅ := by
  intro stdSort storage txn
  show some ((fun result => Sum.inr result.1) <$> executeInsert stmt storage txn) = _
  unfold executeInsert
  cases storage.lookup stmt.table with
  | none => rfl
  | some rows => cases buildRow stmt.columns stmt.values ∅ <;> rfl

theorem writesRows_update (stmt : UpdateStatement) :
    WritesRows (.update stmt) stmt.table fun rows => .ok (rows.map (updatedRow stmt)) := by
  intro stdSort storage txn
  show some ((fun result => Sum.inr result.1) <$> executeUpdate stmt storage txn) = _
  unfold executeUpdate
  cases storage.lookup stmt.table with
  | none => rfl
  | some rows =>
    simp only [← updateRows_fst stmt rows txn]
    rfl

theorem writesRows_delete (stmt : DeleteStatement) :
    WritesRows (.delete stmt) stmt.table fun rows =>
    .ok (rows.filter fun row => !matchesWhere stmt.where? row) := by
  intro stdSort storage txn
  show some ((fun result => Sum.inr result.1) <$> executeDelete stmt storage txn) = _
  unfold executeDelete
  cases storage.lookup stmt.table with
  | none => rfl
  | some rows =>
    simp only [← deleteRows_fst stmt rows txn]
    rfl

/-- **Two writes to one table leave the same tables exactly if they do the same to all rows**: a
storage of this table alone tells them apart. -/
theorem WritesRows.effect_iff {stmt stmt' : Statement} {table : Str}
    {write write' : List Row → Except Fault (List Row)} (writes : WritesRows stmt table write)
    (writes' : WritesRows stmt' table write') :
    (∀ stdSort storage txn, effect stdSort storage txn stmt = effect stdSort storage txn stmt') ↔
      ∀ rows, write rows = write' rows := by
  constructor
  · intro same rows
    have told := same default (oneTable table rows) none
    rw [writes, writes', lookup_oneTable] at told
    refine result_of_map (fun rows rows' tables => ?_) (Option.some.inj told)
    have there := congrArg (fun tables => tables.rows table) (Sum.inr.inj tables)
    simpa only [TableStorage.rows_setRows_self] using there
  · intro same stdSort storage txn
    rw [writes, writes', funext same]

/-- **Statements of one frame do the same on every storage exactly if they do the same to every
row.** -/
theorem effect_eq_iff {stmt stmt' : Statement} (frame : SameFrame stmt stmt') :
    (∀ stdSort storage txn, effect stdSort storage txn stmt = effect stdSort storage txn stmt') ↔
      AgreeOnRows stmt stmt' := by
  cases frame with
  | select same => exact select_effect_iff (.select same)
  | @insert stmt values same =>
    rw [(writesRows_insert stmt).effect_iff (writesRows_insert { stmt with values })]
    refine Iff.trans ⟨fun built => ?_, fun built _ => ?_⟩ (buildRow_eq_iff same.length_eq)
    · exact result_of_map (fun _ _ rows => List.singleton_injective rows) (built [])
    · exact congrArg _ built
  | @update stmt assignments where? assigned same =>
    rw [(writesRows_update stmt).effect_iff (writesRows_update { stmt with assignments, where? })]
    constructor
    · intro rows row
      exact List.singleton_inj.mp (Except.ok.inj (rows [row]))
    · intro agree rows
      exact congrArg (fun update => Except.ok (List.map update rows)) (funext agree)
  | @delete stmt where? same =>
    rw [(writesRows_delete stmt).effect_iff (writesRows_delete { stmt with where? })]
    constructor
    · intro rows row
      have left := Except.ok.inj (rows [row])
      revert left
      show _ → matchesWhere stmt.where? row = matchesWhere where? row
      simp only [List.filter_cons, List.filter_nil]
      cases matchesWhere stmt.where? row <;> cases matchesWhere where? row <;> simp
    · intro agree rows
      exact congrArg (fun holds => Except.ok (rows.filter fun row => !holds row)) (funext agree)
  | createTable stmt stmt' => exact iff_of_true (fun _ _ _ => rfl) trivial
  | dropTable stmt stmt' => exact iff_of_true (fun _ _ _ => rfl) trivial

end SameEffect

/-! ### Operators the evaluator does not know -/

/-- The operators `evaluateExpr` and `compareValues` compare with. -/
def knownOperators : List Str :=
  [str "AND", str "OR", str "NOT", str "=", str "!=", str "<", str ">", str "<=", str ">="]

/-- The same operator, or two the evaluator does not know. -/
def SameOperator (op op' : Str) : Prop := op = op' ∨ (op ∉ knownOperators ∧ op' ∉ knownOperators)

/-- The same expression, up to operators the evaluator does not know. -/
inductive SameExpr : Expr → Expr → Prop
  | literal (kind : LiteralKind) (value : Str) :
      SameExpr (.literal kind value) (.literal kind value)
  | columnRef (table column : Str) : SameExpr (.columnRef table column) (.columnRef table column)
  | binary {op op' : Str} {left left' right right' : Expr} : SameOperator op op' →
      SameExpr left left' → SameExpr right right' →
      SameExpr (.binary op left right) (.binary op' left' right')
  | unary {op op' : Str} {operand operand' : Expr} : SameOperator op op' →
    SameExpr operand operand' →
      SameExpr (.unary op operand) (.unary op' operand')

section Evaluation

/-- An operator that is not known compares false. -/
theorem compareValues_unknown {op : Str} (unknown : op ∉ knownOperators) (left right : Str) :
    compareValues left op right = false := by
  simp only [knownOperators, List.mem_cons, List.not_mem_nil, or_false, not_or] at unknown
  obtain ⟨-, -, -, noEq, noNe, noLt, noGt, noLe, noGe⟩ := unknown
  unfold compareValues compareNumbers compareText
  simp only [if_neg noEq, if_neg noNe, if_neg noLt, if_neg noGt, if_neg noLe, if_neg noGe]
  split <;> rfl

/-- A binary operator that is not known. -/
theorem evaluateExpr_unknown {op : Str} (unknown : op ∉ knownOperators) (left right : Expr)
    (row : Row) :
    evaluateExpr (.binary op left right) row = false := by
  have noAnd : op ≠ str "AND" := fun same => unknown (same ▸ by decide)
  have noOr : op ≠ str "OR" := fun same => unknown (same ▸ by decide)
  unfold evaluateExpr
  rw [if_neg noAnd, if_neg noOr]
  exact compareValues_unknown unknown _ _

theorem SameExpr.resolve {e e' : Expr} (same : SameExpr e e') (row : Row) :
    resolveExpr e row = resolveExpr e' row := by
  cases same <;> rfl

theorem SameExpr.extract {e e' : Expr} (same : SameExpr e e') :
    extractLiteral e = extractLiteral e' := by
  cases same <;> rfl

/-- **The evaluator does not tell the same expressions apart.** -/
theorem SameExpr.evaluate {e e' : Expr} (same : SameExpr e e') (row : Row) :
    evaluateExpr e row = evaluateExpr e' row := by
  induction same with
  | literal kind value => rfl
  | columnRef table column => rfl
  | binary operator left right leftHypothesis rightHypothesis =>
    rcases operator with rfl | ⟨unknown, unknown'⟩
    · simp only [evaluateExpr, leftHypothesis, rightHypothesis, left.resolve, right.resolve]
    · rw [evaluateExpr_unknown unknown, evaluateExpr_unknown unknown']
  | unary operator operand hypothesis =>
    rcases operator with rfl | ⟨unknown, unknown'⟩
    · simp only [evaluateExpr, hypothesis]
    · have notNot : ∀ {op : Str}, op ∉ knownOperators → op ≠ str "NOT" :=
        fun unknown same => unknown (same ▸ by decide)
      unfold evaluateExpr
      rw [if_neg (notNot unknown), if_neg (notNot unknown')]

theorem matchesWhere_same {where? where?' : Option Expr}
    (same : Option.Rel SameExpr where? where?') :
    matchesWhere where? = matchesWhere where?' := by
  funext row
  cases same with
  | none => rfl
  | some same => exact same.evaluate row

theorem applyAssignments_same {assignments assignments' : List (Str × Expr)}
    (same : List.Forall₂ (SameAssignment SameExpr) assignments assignments') (row : Row) :
    applyAssignments assignments row = applyAssignments assignments' row := by
  unfold applyAssignments
  induction same generalizing row with
  | nil => rfl
  | cons first others hypothesis =>
    rw [List.foldl_cons, List.foldl_cons, first.1, first.2.resolve]
    exact hypothesis _

theorem sameStored_of_same {values values' : List Expr}
    (same : List.Forall₂ SameExpr values values') (columns : List Str) :
    SameStored columns values values' := by
  refine .inr fun k _ value value' _ _ isValue isValue' => ?_
  obtain ⟨within, rfl⟩ := List.getElem?_eq_some_iff.mp isValue
  obtain ⟨within', rfl⟩ := List.getElem?_eq_some_iff.mp isValue'
  exact (List.forall₂_iff_get.mp same).2 k within within' |>.extract

/-- **Statements that differ in unknown operators only do the same to every row.** -/
theorem SameStatement.agreeOnRows {stmt stmt' : Statement}
    (same : SameStatement SameExpr stmt stmt') :
    AgreeOnRows stmt stmt' := by
  cases same with
  | select same => exact .inr fun row => congrFun (matchesWhere_same same) row
  | insert same => exact sameStored_of_same same _
  | update assigned same =>
    intro row
    unfold updatedRow
    rw [matchesWhere_same same, applyAssignments_same assigned row]
  | delete same => exact fun row => congrFun (matchesWhere_same same) row
  | createTable _ _ => trivial
  | dropTable _ _ => trivial

end Evaluation

end MyDb
