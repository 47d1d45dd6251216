/-
**The parser** (`src/parser.cpp`).

A member function of `Parser` is a recursive-descent parser over `tokens_` and `pos_`. An index
outside `tokens_` has no defined outcome. The source's loops and recursive calls are those of the
library, which end with the fault `diverges` only if they do not end in the source.

Each function has the tokens, the order and the texts of the errors of the source's. An error names
the line and the column of the token at `pos_`, and `expect` ends it with that token's text. Two
tests go by a token's text where all others go by its type: `PRIMARY`, which is no keyword of the
lexer, and the number behind LIMIT, which goes to `std::stoi` whole and may throw what that throws.
-/

import MyDatabaseEngine.Exec.Number
import MyDatabaseEngine.Lib.Descent
import MyDatabaseEngine.Sql.Ast
import MyDatabaseEngine.Sql.Lexer

namespace MyDb.Sql

open Descent

/-- `std::stoi`: leading whitespace, a sign, and the longest run of digits behind it. -/
def stoi (text : Str) : Except Fault Int :=
  let (negative, unsigned) := takeSign (text.dropWhile isSpace)
  let digits := unsigned.takeWhile isDigit
  let value : Int := if negative then -digitsValue 10 digits else digitsValue 10 digits
  if digits = [] then .error (.invalidArgument (str "stoi"))
  else if -2 ^ 31 ≤ value ∧ value < 2 ^ 31 then .ok value
  else .error (.outOfRange (str "stoi"))

/-- A member function of `Parser`. -/
abbrev ParserM := Descent.Parser Fault Token

namespace Parser

/-! ### Navigation -/

/-- `tokens_[pos_]`. -/
def peek : ParserM Token := Descent.peek .undefinedBehaviour

/-- `isAtEnd`. -/
def isAtEnd : ParserM Bool := do
  return (← peek).type = .END_OF_FILE

/-- `tokens_[pos_ - 1]`. -/
def previous : ParserM Token := fun tokens pos =>
  match pos with
  | 0 => .error .undefinedBehaviour
  | before + 1 =>
    match tokens[before]? with
    | some token => .ok (token, before + 1)
    | none => .error .undefinedBehaviour

/-- `advance`: at the end it stays, and returns the token before. -/
def advance : ParserM Token := do
  if ← isAtEnd then previous
  else
    modify (· + 1)
    previous

/-- `token.type == type`. -/
def isType (type : TokenType) (token : Token) : Bool := token.type = type

/-- `check`. -/
def check (type : TokenType) : ParserM Bool := nextIs .undefinedBehaviour (isType type)

/-- `match`. -/
def matchType (type : TokenType) : ParserM Bool := do
  if ← check type then
    let _ ← advance
    return true
  else return false

/-- `throw error(msg)`. -/
def error {α : Type} (msg : Str) : ParserM α := do
  let token ← peek
  throw (.parseError (str "Parse error at line " ++ toString10 token.line ++
    str ", col " ++ toString10 token.col ++ str ": " ++ msg))

/-- `expect`: the message ends with the text of the token that is there. -/
def expect (type : TokenType) (msg : String) : ParserM Token := do
  if ← check type then advance
  else error (str msg ++ str " — got '" ++ (← peek).value ++ str "'")

/-- `do { item } while (match(COMMA))`. -/
def commaList {α : Type} (item : ParserM α) : ParserM (List α) :=
  separated .undefinedBehaviour .diverges advance (isType .COMMA) item

/-! ### Expressions -/

/-- The operators of `parseExpression`. -/
def isConnective (token : Token) : Bool := token.type = .AND ∨ token.type = .OR

/-- The operators of `parseComparison`. -/
def isComparison (token : Token) : Bool :=
  token.type = .EQ ∨ token.type = .NEQ ∨ token.type = .LT ∨ token.type = .GT ∨
    token.type = .LTE ∨ token.type = .GTE

/-- The operators of `parseUnary`. -/
def isPrefix (token : Token) : Bool := token.type = .NOT ∨ token.type = .MINUS

/-- The truth values, which `parsePrimary` asks for together. -/
def isBool (token : Token) : Bool := token.type = .BOOL_TRUE ∨ token.type = .BOOL_FALSE

/-- The node of a binary operator: its text and its operands. -/
def binaryExpr (operator : Token) (left right : Expr) : Expr := .binary operator.value left right

/-- The kind of a number's text. -/
def numberKind (value : Str) : LiteralKind := if chr '.' ∈ value then .float else .integer

/-- `parsePrimary`: a literal, a column with or without its table, or an expression in
parentheses. -/
def parsePrimary (parseExpression : ParserM Expr) : ParserM Expr := do
  if ← check .NUMBER then
    let tok ← advance
    return .literal (numberKind tok.value) tok.value
  else if ← check .STRING then
    let tok ← advance
    return .literal .string tok.value
  else if ← nextIs .undefinedBehaviour isBool then
    let tok ← advance
    return .literal .bool tok.value
  else if ← check .IDENTIFIER then
    let first ← advance
    if ← check .DOT then
      let _ ← advance
      let second ← expect .IDENTIFIER "Expected column name after '.'"
      return .columnRef first.value second.value
    else return .columnRef [] first.value
  else if ← check .LPAREN then
    let _ ← advance
    let inner ← parseExpression
    let _ ← expect .RPAREN "Expected ')' after expression"
    return inner
  else error (str "Expected a value: number, string, column name, or '('")

/-- `parseUnary`: any number of prefixes. -/
def parseUnary (parseExpression : ParserM Expr) : ParserM Expr :=
  recursion .diverges fun parseUnary => do
    if ← nextIs .undefinedBehaviour isPrefix then
      let op ← advance
      let operand ← parseUnary
      return .unary op.value operand
    else parsePrimary parseExpression

/-- `parseComparison`: a chain, with the first operands deepest. -/
def parseComparison (parseExpression : ParserM Expr) : ParserM Expr :=
  chainLeft .undefinedBehaviour .diverges advance isComparison binaryExpr
    (parseUnary parseExpression)

/-- `parseExpression`: `AND` and `OR` alike, in one chain. -/
def parseExpression : ParserM Expr :=
  recursion .diverges fun parseExpression =>
    chainLeft .undefinedBehaviour .diverges advance isConnective binaryExpr
      (parseComparison parseExpression)

/-! ### Clauses -/

/-- `parseColumnList`. -/
def parseColumnList : ParserM (List Str) :=
  commaList do return (← expect .IDENTIFIER "Expected column name").value

/-- `parseWhereClause`. -/
def parseWhereClause : ParserM (Option Expr) := do
  if ← matchType .WHERE then return some (← parseExpression)
  else return none

/-- One item of an ORDER BY: ascending unless a DESC stands there, behind which an ASC is read
over. -/
def parseOrderByItem : ParserM OrderByClause := do
  let column ← expect .IDENTIFIER "Expected column name"
  let descending ← matchType .DESC
  let _ ← matchType .ASC
  return { column := column.value, ascending := !descending }

/-- `parseOrderByClause`. -/
def parseOrderByClause : ParserM (List OrderByClause) := do
  if ← matchType .ORDER then
    let _ ← expect .BY "Expected BY after ORDER"
    commaList parseOrderByItem
  else return []

/-- `parseLimitClause`: the number's whole text goes to `std::stoi`. -/
def parseLimitClause : ParserM (Option Int) := do
  if ← matchType .LIMIT then
    let num ← expect .NUMBER "Expected number after LIMIT"
    let count ← stoi num.value
    return some count
  else return none

/-- One turn of the loop over a column's constraints. The first is told by its text, the second by
its type. -/
def parseConstraint (column : ColumnDef) : ParserM (Turn ColumnDef ColumnDef) := do
  if (← peek).value = str "PRIMARY" then
    let _ ← advance
    let _ ← expect .IDENTIFIER "Expected KEY after PRIMARY"
    return .again { column with primaryKey := true }
  else if ← check .NOT then
    let _ ← advance
    let _ ← expect .IDENTIFIER "Expected NULL after NOT"
    return .again { column with notNull := true }
  else return .done column

/-- `parseColumnDef`: a name, a type and any constraints. -/
def parseColumnDef : ParserM ColumnDef := do
  let name ← expect .IDENTIFIER "Expected column name"
  let type ← expect .IDENTIFIER "Expected type (INT, TEXT...)"
  loop .diverges parseConstraint { name := name.value, type := type.value }

/-! ### Statements -/

/-- The column list of a SELECT. -/
def parseSelectColumns : ParserM (List Str) := do
  if ← check .STAR then
    let _ ← advance
    return [str "*"]
  else parseColumnList

/-- `parseSelect`. -/
def parseSelect : ParserM SelectStatement := do
  let _ ← expect .SELECT "Expected SELECT"
  let columns ← parseSelectColumns
  let _ ← expect .FROM "Expected FROM after column list"
  let table ← expect .IDENTIFIER "Expected table name"
  let where? ← parseWhereClause
  let orderBy ← parseOrderByClause
  let limit ← parseLimitClause
  return { columns, table := table.value, where?, orderBy, limit }

/-- `parseInsert`. It does not compare the numbers of columns and values. -/
def parseInsert : ParserM InsertStatement := do
  let _ ← expect .INSERT "Expected INSERT"
  let _ ← expect .INTO "Expected INTO after INSERT"
  let table ← expect .IDENTIFIER "Expected table name"
  let _ ← expect .LPAREN "Expected '(' before column list"
  let columns ← parseColumnList
  let _ ← expect .RPAREN "Expected ')' after column list"
  let _ ← expect .VALUES "Expected VALUES"
  let _ ← expect .LPAREN "Expected '(' before values"
  let values ← commaList parseExpression
  let _ ← expect .RPAREN "Expected ')' after values"
  return { table := table.value, columns, values }

/-- One assignment of an UPDATE. -/
def parseAssignment : ParserM (Str × Expr) := do
  let col ← expect .IDENTIFIER "Expected column name"
  let _ ← expect .EQ "Expected '=' after column name"
  let val ← parseExpression
  return (col.value, val)

/-- `parseUpdate`. -/
def parseUpdate : ParserM UpdateStatement := do
  let _ ← expect .UPDATE "Expected UPDATE"
  let table ← expect .IDENTIFIER "Expected table name"
  let _ ← expect .SET "Expected SET after table name"
  let assignments ← commaList parseAssignment
  let where? ← parseWhereClause
  return { table := table.value, assignments, where? }

/-- `parseDelete`. -/
def parseDelete : ParserM DeleteStatement := do
  let _ ← expect .DELETE "Expected DELETE"
  let _ ← expect .FROM "Expected FROM after DELETE"
  let table ← expect .IDENTIFIER "Expected table name"
  let where? ← parseWhereClause
  return { table := table.value, where? }

/-- `parseCreateTable`. -/
def parseCreateTable : ParserM CreateTableStatement := do
  let _ ← expect .CREATE "Expected CREATE"
  let _ ← expect .TABLE "Expected TABLE after CREATE"
  let table ← expect .IDENTIFIER "Expected table name"
  let _ ← expect .LPAREN "Expected '(' before column definitions"
  let columns ← commaList parseColumnDef
  let _ ← expect .RPAREN "Expected ')' after column definitions"
  return { table := table.value, columns }

/-- `parseDropTable`. -/
def parseDropTable : ParserM DropTableStatement := do
  let _ ← expect .DROP "Expected DROP"
  let _ ← expect .TABLE "Expected TABLE after DROP"
  let table ← expect .IDENTIFIER "Expected table name"
  return { table := table.value }

/-- `parseStatement`: the first token says which of the six it is. -/
def parseStatement : ParserM Statement := do
  match (← peek).type with
  | .SELECT => return .select (← parseSelect)
  | .INSERT => return .insert (← parseInsert)
  | .UPDATE => return .update (← parseUpdate)
  | .DELETE => return .delete (← parseDelete)
  | .CREATE => return .createTable (← parseCreateTable)
  | .DROP => return .dropTable (← parseDropTable)
  | _ => error (str "Expected SELECT, INSERT, UPDATE, DELETE, CREATE or DROP")

/-- `parse`. -/
def parse : ParserM Statement := do
  let stmt ← parseStatement
  let _ ← matchType .SEMICOLON
  return stmt

end Parser

/-- `Parser(Lexer(sql).tokenize()).parse()`. -/
def parseSQL (sql : Str) : Except Fault Statement := do
  let tokens ← Lexer.tokenize sql
  let (stmt, _) ← Parser.parse tokens 0
  return stmt

end MyDb.Sql
