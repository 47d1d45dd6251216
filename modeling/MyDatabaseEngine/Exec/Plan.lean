/-
**Logical and physical plans, and the optimizer** (`include/logical_plan.h`,
`include/physical_plan.h`, `src/optimizer.cpp`).

A node carries its children as arguments: the optimizer only ever builds nodes with the children
their kind needs, and the source's vector of children and its fields for other kinds of node are
left out. `toLogical` puts a SELECT's clauses one above the other: scan, filter, projection, sort,
limit. Of an INSERT, an UPDATE and a DELETE it keeps the scan, with the filter if there is a WHERE,
and the two others it does not support. `toPhysical` changes each node for the operator of its kind;
a join becomes a hash join that builds its left child. No statement has a plan with a join in it.
-/

import MyDatabaseEngine.Sql.Ast

namespace MyDb

inductive LogicalPlan
  | scan (tableName : Str)
  | filter (predicate : Expr) (child : LogicalPlan)
  | projection (columns : List Str) (child : LogicalPlan)
  | sort (orderBy : List OrderByClause) (child : LogicalPlan)
  | limit (count : Int) (child : LogicalPlan)
  | join (leftKey rightKey : Str) (left right : LogicalPlan)
  deriving DecidableEq, Repr

inductive PhysicalPlan
  | seqScan (tableName : Str)
  | filter (predicate : Expr) (child : PhysicalPlan)
  | projection (columns : List Str) (child : PhysicalPlan)
  | sort (orderBy : List OrderByClause) (child : PhysicalPlan)
  | limit (count : Int) (child : PhysicalPlan)
  | hashJoin (buildKey probeKey : Str) (build probe : PhysicalPlan)
  deriving DecidableEq, Repr

namespace Optimizer

/-- The scan, under a filter when there is a WHERE. -/
def scanWhere (table : Str) (where? : Option Expr) : LogicalPlan :=
  match where? with
  | none => .scan table
  | some predicate => .filter predicate (.scan table)

/-- `buildSelect`: scan, filter, projection, sort, limit, from the bottom up. -/
def buildSelect (stmt : SelectStatement) : LogicalPlan :=
  let cur := scanWhere stmt.table stmt.where?
  let cur := .projection stmt.columns cur
  let cur := if stmt.orderBy.isEmpty then cur else .sort stmt.orderBy cur
  match stmt.limit with
  | none => cur
  | some count => .limit count cur

/-- `buildInsert`. -/
def buildInsert (stmt : InsertStatement) : LogicalPlan := .scan stmt.table

/-- `buildDelete`. -/
def buildDelete (stmt : DeleteStatement) : LogicalPlan := scanWhere stmt.table stmt.where?

/-- `buildUpdate`. -/
def buildUpdate (stmt : UpdateStatement) : LogicalPlan := scanWhere stmt.table stmt.where?

/-- `toLogical`. -/
def toLogical : Statement → Except Fault LogicalPlan
  | .select stmt => .ok (buildSelect stmt)
  | .insert stmt => .ok (buildInsert stmt)
  | .delete stmt => .ok (buildDelete stmt)
  | .update stmt => .ok (buildUpdate stmt)
  | .createTable _ => .error (.runtimeError (str "Optimizer: unsupported statement"))
  | .dropTable _ => .error (.runtimeError (str "Optimizer: unsupported statement"))

/-- `toPhysical`. -/
def toPhysical : LogicalPlan → PhysicalPlan
  | .scan tableName => .seqScan tableName
  | .filter predicate child => .filter predicate (toPhysical child)
  | .projection columns child => .projection columns (toPhysical child)
  | .sort orderBy child => .sort orderBy (toPhysical child)
  | .limit count child => .limit count (toPhysical child)
  | .join leftKey rightKey left right =>
    .hashJoin leftKey rightKey (toPhysical left) (toPhysical right)

end Optimizer

end MyDb
