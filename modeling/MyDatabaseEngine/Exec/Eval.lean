/-
**Expression evaluation** (`src/executor.cpp`).

Rows hold texts only, and so do expressions when they are evaluated. `resolveExpr` is the text an
expression stands for in a row: a literal's own, a column's from the row, and the empty text for a
column that is not there or for any other node. `compareValues` takes both texts for numbers if
`std::stod` accepts both, and compares them as texts otherwise (`compareValues_numbers`,
`compareValues_text`).

`evaluateExpr` knows its operators by their texts, `AND`, `OR` and `NOT` in capitals only: any other
text of a binary operator is handed on to the comparison, which is false for it. As a condition a
literal is true when its text is `true` or `1`, and a column always is.
-/

import MyDatabaseEngine.Exec.Number
import MyDatabaseEngine.Sql.Ast

namespace MyDb

/-- `resolveExpr`: a literal's text or a column's value; everything else is the empty string. -/
def resolveExpr : Expr → Row → Str
  | .literal _ value, _ => value
  | .columnRef _ column, row => (row.lookup column).getD []
  | .binary _ _ _, _ => []
  | .unary _ _, _ => []

/-- The comparison of two values that both convert to numbers. -/
def compareNumbers (left : Double) (op : Str) (right : Double) : Bool :=
  if op = str "=" then left.eq right
  else if op = str "!=" then !left.eq right
  else if op = str "<" then left.lt right
  else if op = str ">" then right.lt left
  else if op = str "<=" then left.le right
  else if op = str ">=" then right.le left
  else false

/-- The comparison of two values as text. -/
def compareText (left op right : Str) : Bool :=
  if op = str "=" then left = right
  else if op = str "!=" then left ≠ right
  else if op = str "<" then left < right
  else if op = str ">" then right < left
  else if op = str "<=" then left ≤ right
  else if op = str ">=" then right ≤ left
  else false

/-- `compareValues` of the executor: numbers when both sides convert, else text. An operator that is
none of the six compares false on either path. -/
def compareValues (left op right : Str) : Bool :=
  match stod left, stod right with
  | some l, some r => compareNumbers l op r
  | _, _ => compareText left op right

theorem compareValues_numbers {left right : Str} {l r : Double} (first : stod left = some l)
    (second : stod right = some r) (op : Str) :
    compareValues left op right = compareNumbers l op r := by
  unfold compareValues
  rw [first, second]

theorem compareValues_text {left right : Str} (one : stod left = none ∨ stod right = none)
    (op : Str) :
    compareValues left op right = compareText left op right := by
  unfold compareValues
  rcases one with none | none <;> rw [none]
  cases stod left <;> rfl

/-- `evaluateExpr`. A column reference, and a unary operator other than `NOT`, count as true. -/
def evaluateExpr : Expr → Row → Bool
  | .binary op left right, row =>
    if op = str "AND" then evaluateExpr left row && evaluateExpr right row
    else if op = str "OR" then evaluateExpr left row || evaluateExpr right row
    else compareValues (resolveExpr left row) op (resolveExpr right row)
  | .unary op operand, row => if op = str "NOT" then !evaluateExpr operand row else true
  | .literal _ value, _ => value = str "true" || value = str "1"
  | .columnRef _ _, _ => true

/-- `extractLiteral`. -/
def extractLiteral : Expr → Str
  | .literal _ value => value
  | _ => []

/-- `!stmt.where.has_value() || evaluateExpr(stmt.where.value(), row)`. -/
def matchesWhere (where? : Option Expr) (row : Row) : Bool :=
  match where? with
  | none => true
  | some predicate => evaluateExpr predicate row

end MyDb
