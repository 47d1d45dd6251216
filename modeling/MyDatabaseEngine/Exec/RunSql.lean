/-
**From a text to its results** (`runSQL` in `main.cpp`).

The text is scanned and parsed, the statement planned, the plan executed. `Means` is what the
grammar reads at the start of a text, and `Statement.result` what becomes of a statement on the
tables, both without a word on how it is done. `runSQL_eq_iff`: that, and nothing else, comes out.
Only a SELECT is done: an INSERT, UPDATE or DELETE returns rows that its plan scans, and stores
nothing.

A SELECT filters, projects, orders and limits, in this order, so a column that is not selected does
not order anything. A table that is not there throws, and so does a CREATE or a DROP.
`means_iff_wellFormed` says which statements there are texts for: those that can be printed.
-/

import MyDatabaseEngine.Exec.BuiltPlans
import MyDatabaseEngine.Exec.WritePlans
import MyDatabaseEngine.Sql.Accepted

namespace MyDb

open Sql

/-- `runSQL`, up to its results. -/
def runSQL (stdSort : StdSort Row) (storage : TableStorage) (sql : Str) :
    Except Fault (List Row) := do
  let stmt ← parseSQL sql
  runPlan stdSort storage stmt

/-! ### What a text means -/

section Texts

/-- **What a text means**: its tokens begin with a statement and an optional semicolon, behind which
the parser does not look. -/
def Sql.Means (sql : Str) (stmt : Statement) : Prop :=
  ∃ front next rest, Lexer.tokenize sql = .ok (front ++ next :: rest) ∧ Input front next stmt

/-- **The parser returns what the text means.** -/
theorem means_iff_parseSQL {sql : Str} {stmt : Statement} : Means sql stmt ↔
    parseSQL sql = .ok stmt := by
  unfold Means parseSQL
  cases scanned : Lexer.tokenize sql with
  | error fault =>
    constructor
    · rintro ⟨front, next, rest, bad, -⟩
      cases bad
    · intro bad
      cases bad
  | ok tokens =>
    have reads := fun pos => @parse_eq_ok_iff tokens pos stmt (endsInput_tokenize scanned)
    show _ ↔ (Parser.parse tokens 0 >>= fun result => pure result.1) = .ok stmt
    constructor
    · rintro ⟨front, next, rest, same, input⟩
      rw [(reads _).mpr ⟨front, next, rest, Except.ok.inj same, rfl, input⟩]
      rfl
    · intro parsed
      cases ran : Parser.parse tokens 0 with
      | error fault =>
        rw [ran] at parsed
        cases parsed
      | ok result =>
        obtain ⟨stmt', pos⟩ := result
        rw [ran] at parsed
        cases parsed
        obtain ⟨front, next, rest, split, -, input⟩ := (reads pos).mp ran
        exact ⟨front, next, rest, congrArg Except.ok split, input⟩

/-- **What texts can say is what can be printed.** -/
theorem means_iff_wellFormed {stmt : Statement} : (∃ sql, Means sql stmt) ↔ WellFormed stmt := by
  constructor
  · rintro ⟨sql, means⟩
    exact parseSQL_wellFormed (means_iff_parseSQL.mp means)
  · intro well
    refine ⟨print stmt, means_iff_parseSQL.mpr ?_⟩
    exact parseSQL_render (lexemes_statement well) fun _ _ spells last =>
      sentence_of_spells well spells last

end Texts

/-! ### What becomes of a statement -/

section Results

/-- The rows sorted as ORDER BY has it, if there is one. -/
def orderRows (stdSort : StdSort Row) (orderBy : List OrderByClause) (rows : List Row) : List Row :=
  if orderBy.isEmpty then rows else stdSort.sort (Operator.rowLess orderBy) rows

/-- The results over the rows of the statement's table. -/
def onRows (table : Str) (answer : List Row → List Row) (storage : TableStorage) :
    Except Fault (List Row) :=
  match storage.lookup table with
  | none => .error (.runtimeError (str "Table not found: " ++ table))
  | some rows => .ok (answer rows)

/-- **What becomes of a statement** on the tables. -/
def Statement.result (stdSort : StdSort Row) (storage : TableStorage) :
    Statement → Except Fault (List Row)
  | .select stmt => storage |> onRows stmt.table fun rows =>
      takeLimit stmt.limit (orderRows stdSort stmt.orderBy
        ((rows.filter (matchesWhere stmt.where?)).map (Operator.project stmt.columns)))
  | .insert stmt => storage |> onRows stmt.table fun rows => rows
  | .update stmt => storage |> onRows stmt.table fun rows => rows.filter (matchesWhere stmt.where?)
  | .delete stmt => storage |> onRows stmt.table fun rows => rows.filter (matchesWhere stmt.where?)
  | .createTable _ => .error (.runtimeError (str "Optimizer: unsupported statement"))
  | .dropTable _ => .error (.runtimeError (str "Optimizer: unsupported statement"))

variable (stdSort : StdSort Row) (storage : TableStorage)

/-- **A plan over one table**, which may be missing. -/
theorem execute_onRows {plan : PhysicalPlan} {table : Str} {answer : List Row → List Row}
    (tables : plan.tables = [table])
    (denotes : denote stdSort storage plan = answer (storage.rows table)) :
    Executor.execute stdSort storage none plan = onRows table answer storage := by
  have built := @Executor.build_eq stdSort storage none plan
  rw [tables, List.find?_singleton] at built
  unfold onRows
  cases found : storage.lookup table with
  | none =>
    rw [found] at built
    unfold Executor.execute
    rw [show Executor.build stdSort storage none plan = _ from built]
  | some rows =>
    rw [Operator.execute_denotes stdSort, denotes, TableStorage.rows_of_lookup found]
    intro scanned member
    rw [tables, List.mem_singleton] at member
    rw [member, found]
    rfl

theorem execute_scanWhere_onRows (table : Str) (where? : Option Expr) :
    Executor.execute stdSort storage none
      (Optimizer.toPhysical (Optimizer.scanWhere table where?)) =
      onRows table (List.filter (matchesWhere where?)) storage := by
  refine execute_onRows stdSort storage ?_ (denote_scanWhere stdSort storage table where?)
  unfold Optimizer.scanWhere
  cases where? <;> rfl

/-- **The plan of a statement does what is to become of it.** -/
theorem runPlan_eq (stmt : Statement) :
    runPlan stdSort storage stmt = stmt.result stdSort storage := by
  cases stmt with
  | select stmt =>
    exact execute_onRows stdSort storage (tables_buildSelect stmt)
      (denote_buildSelect stdSort storage stmt)
  | insert stmt => exact @execute_onRows stdSort storage (.seqScan stmt.table) _ id rfl rfl
  | update stmt => exact execute_scanWhere_onRows stdSort storage stmt.table stmt.where?
  | delete stmt => exact execute_scanWhere_onRows stdSort storage stmt.table stmt.where?
  | createTable stmt => rfl
  | dropTable stmt => rfl

/-- **What comes out of a text**: the result of the statement it means, or a complaint about the
text, whatever the tables are. -/
theorem runSQL_eq_iff (sql : Str) (outcome : Except Fault (List Row)) :
    runSQL stdSort storage sql = outcome ↔
      (∃ stmt, Means sql stmt ∧ outcome = stmt.result stdSort storage) ∨
        ∃ fault, parseSQL sql = .error fault ∧ outcome = .error fault := by
  unfold runSQL
  cases parsed : parseSQL sql with
  | error fault =>
    constructor
    · rintro rfl
      exact .inr ⟨fault, rfl, rfl⟩
    · rintro (⟨stmt, means, -⟩ | ⟨fault', same, rfl⟩)
      · cases parsed.symm.trans (means_iff_parseSQL.mp means)
      · rw [Except.error.inj same]
        rfl
  | ok stmt =>
    show runPlan stdSort storage stmt = outcome ↔ _
    rw [runPlan_eq]
    constructor
    · rintro rfl
      exact .inl ⟨stmt, means_iff_parseSQL.mpr parsed, rfl⟩
    · rintro (⟨stmt', means, rfl⟩ | ⟨fault, same, -⟩)
      · rw [Except.ok.inj (parsed.symm.trans (means_iff_parseSQL.mp means))]
      · cases same

end Results

end MyDb
