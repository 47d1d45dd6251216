/-
**Statements as SQL text.**

A statement is printed as its lexemes with single spaces between them: an operand that is itself an
operator's node stands in parentheses, and a string between quotes.

`WellFormed` says which trees are statements: what they name are identifiers, their literals have
the shape of their kind, and their operators are those the parser reads. Identifiers are no keywords
in any case, numbers have no sign, and a LIMIT fits an `int`. Lists that the grammar asks an item of
are not empty, and the only list with a `*` in it is the star alone. The words in which the source
prints nothing are those of the pieces here: keywords in capitals, an item of an ORDER BY with its
direction.
-/

import MyDatabaseEngine.Sql.Ast
import MyDatabaseEngine.Sql.Scanning

namespace MyDb.Sql

/-! ### Well-formed statements -/

/-- A letter or underscore, then letters, digits and underscores; no keyword in any case. -/
def IsIdentifier (name : Str) : Prop :=
  (∃ first rest, name = first :: rest ∧ (isAlpha first = true ∨ first = chr '_') ∧
    ∀ c ∈ rest, Lexer.isWord c = true) ∧ classifyWord (name.map toUpper) = .IDENTIFIER

/-- One digit or more. -/
def IsDigits (text : Str) : Prop := text ≠ [] ∧ ∀ c ∈ text, isDigit c = true

/-- The text of a literal has the shape of its kind; that of a string may be any. -/
def WellFormedLiteral : LiteralKind → Str → Prop
  | .integer, value => IsDigits value
  | .float, value => ∃ digits decimals, value = digits ++ chr '.' :: decimals ∧
      IsDigits digits ∧ IsDigits decimals
  | .string, _ => True
  | .bool, value => value.map toUpper = str "TRUE" ∨ value.map toUpper = str "FALSE"

/-- The operators that are no words. -/
def symbols : List (Str × TokenType) :=
  [(str "=", .EQ), (str "!=", .NEQ), (str "<", .LT), (str ">", .GT), (str "<=", .LTE),
    (str ">=", .GTE), (str "-", .MINUS)]

/-- The type of an operator's text. -/
def operatorType (op : Str) : TokenType :=
  (symbols.lookup op).getD (classifyWord (op.map toUpper))

/-- `AND` and `OR`, in any case, and the six comparisons. -/
def IsBinaryOperator (op : Str) : Prop :=
  op.map toUpper = str "AND" ∨ op.map toUpper = str "OR" ∨
    op ∈ [str "=", str "!=", str "<", str ">", str "<=", str ">="]

/-- `NOT`, in any case, and the minus sign. -/
def IsUnaryOperator (op : Str) : Prop := op.map toUpper = str "NOT" ∨ op = str "-"

/-- **A well-formed expression**, node by node. -/
def WellFormedExpr : Expr → Prop
  | .literal kind value => WellFormedLiteral kind value
  | .columnRef table column => (table = [] ∨ IsIdentifier table) ∧ IsIdentifier column
  | .binary op left right => IsBinaryOperator op ∧ WellFormedExpr left ∧ WellFormedExpr right
  | .unary op operand => IsUnaryOperator op ∧ WellFormedExpr operand

/-- A WHERE that is there is well formed. -/
def WellFormedWhere (where? : Option Expr) : Prop := ∀ e ∈ where?, WellFormedExpr e

/-- A column of a CREATE TABLE has identifiers for its name and its type. -/
def WellFormedColumn (column : ColumnDef) : Prop :=
  IsIdentifier column.name ∧ IsIdentifier column.type

/-- The column list of a SELECT: a single `*`, or identifiers. -/
def WellFormedSelectColumns (columns : List Str) : Prop :=
  columns = [str "*"] ∨ (columns ≠ [] ∧ ∀ column ∈ columns, IsIdentifier column)

/-- **A well-formed statement.** -/
def WellFormed : Statement → Prop
  | .select stmt => WellFormedSelectColumns stmt.columns ∧ IsIdentifier stmt.table ∧
      WellFormedWhere stmt.where? ∧ (∀ clause ∈ stmt.orderBy, IsIdentifier clause.column) ∧
      ∀ count ∈ stmt.limit, 0 ≤ count ∧ count ≤ 2 ^ 31 - 1
  | .insert stmt => IsIdentifier stmt.table ∧
      (stmt.columns ≠ [] ∧ ∀ column ∈ stmt.columns, IsIdentifier column) ∧
      (stmt.values ≠ [] ∧ ∀ value ∈ stmt.values, WellFormedExpr value)
  | .update stmt => IsIdentifier stmt.table ∧
      (stmt.assignments ≠ [] ∧
        ∀ assignment ∈ stmt.assignments, IsIdentifier assignment.1 ∧ WellFormedExpr assignment.2) ∧
      WellFormedWhere stmt.where?
  | .delete stmt => IsIdentifier stmt.table ∧ WellFormedWhere stmt.where?
  | .createTable stmt => IsIdentifier stmt.table ∧
      (stmt.columns ≠ [] ∧ ∀ column ∈ stmt.columns, WellFormedColumn column)
  | .dropTable stmt => IsIdentifier stmt.table

/-! ### Printing -/

/-- A token's type and value. -/
abbrev Piece := TokenType × Str

/-- A keyword of the table. -/
def keyword (type : TokenType) (text : String) : Piece := (type, str text)

/-- A name. -/
def identifier (name : Str) : Piece := (.IDENTIFIER, name)

/-- The type of a literal's token. -/
def literalType : LiteralKind → Str → TokenType
  | .integer, _ => .NUMBER
  | .float, _ => .NUMBER
  | .string, _ => .STRING
  | .bool, value => classifyWord (value.map toUpper)

/-- An operand: in parentheses when it is an operator's node. -/
def operandPieces (operand : Expr) (pieces : List Piece) : List Piece :=
  match operand with
  | .binary _ _ _ => keyword .LPAREN "(" :: (pieces ++ [keyword .RPAREN ")"])
  | .unary _ _ => keyword .LPAREN "(" :: (pieces ++ [keyword .RPAREN ")"])
  | _ => pieces

/-- The lexemes of an expression. -/
def exprPieces : Expr → List Piece
  | .literal kind value => [(literalType kind value, value)]
  | .columnRef table column =>
    if table = [] then [identifier column]
    else [identifier table, keyword .DOT ".", identifier column]
  | .binary op left right =>
    operandPieces left (exprPieces left) ++ (operatorType op, op) ::
      operandPieces right (exprPieces right)
  | .unary op operand => (operatorType op, op) :: operandPieces operand (exprPieces operand)

/-- Lists with commas between them. -/
def commas : List (List Piece) → List Piece
  | [] => []
  | [item] => item
  | item :: other :: rest => item ++ keyword .COMMA "," :: commas (other :: rest)

/-- A column's name as an item of a list. -/
def columnPieces (column : Str) : List Piece := [identifier column]

/-- The column list of a SELECT. -/
def selectColumnPieces (columns : List Str) : List Piece :=
  if columns = [str "*"] then [keyword .STAR "*"] else commas (columns.map columnPieces)

/-- A WHERE, unless there is none. -/
def wherePieces : Option Expr → List Piece
  | none => []
  | some e => keyword .WHERE "WHERE" :: exprPieces e

/-- An item of an ORDER BY, with its direction spelt out. -/
def orderByItemPieces (clause : OrderByClause) : List Piece :=
  [identifier clause.column, if clause.ascending then keyword .ASC "ASC" else keyword .DESC "DESC"]

/-- An ORDER BY, unless it has no item. -/
def orderByPieces (clauses : List OrderByClause) : List Piece :=
  if clauses = [] then []
  else keyword .ORDER "ORDER" :: keyword .BY "BY" :: commas (clauses.map orderByItemPieces)

/-- A LIMIT, unless there is none. -/
def limitPieces : Option Int → List Piece
  | none => []
  | some count => [keyword .LIMIT "LIMIT", (.NUMBER, toString10 count.toNat)]

/-- An assignment of an UPDATE. -/
def assignmentPieces (assignment : Str × Expr) : List Piece :=
  identifier assignment.1 :: keyword .EQ "=" :: exprPieces assignment.2

/-- A column of a CREATE TABLE with its constraints, PRIMARY KEY first. -/
def columnDefPieces (column : ColumnDef) : List Piece :=
  identifier column.name :: identifier column.type ::
    ((if column.primaryKey then [identifier (str "PRIMARY"), identifier (str "KEY")] else []) ++
      if column.notNull then [keyword .NOT "NOT", identifier (str "NULL")] else [])

/-- The lexemes of a statement. -/
def statementPieces : Statement → List Piece
  | .select stmt => keyword .SELECT "SELECT" :: (selectColumnPieces stmt.columns ++
      keyword .FROM "FROM" :: identifier stmt.table ::
        (wherePieces stmt.where? ++ (orderByPieces stmt.orderBy ++ limitPieces stmt.limit)))
  | .insert stmt => keyword .INSERT "INSERT" :: keyword .INTO "INTO" :: identifier stmt.table ::
      keyword .LPAREN "(" :: (commas (stmt.columns.map columnPieces) ++ keyword .RPAREN ")" ::
        keyword .VALUES "VALUES" :: keyword .LPAREN "(" ::
          (commas (stmt.values.map exprPieces) ++ [keyword .RPAREN ")"]))
  | .update stmt => keyword .UPDATE "UPDATE" :: identifier stmt.table :: keyword .SET "SET" ::
      (commas (stmt.assignments.map assignmentPieces) ++ wherePieces stmt.where?)
  | .delete stmt => keyword .DELETE "DELETE" :: keyword .FROM "FROM" :: identifier stmt.table ::
      wherePieces stmt.where?
  | .createTable stmt => keyword .CREATE "CREATE" :: keyword .TABLE "TABLE" ::
      identifier stmt.table :: keyword .LPAREN "(" ::
        (commas (stmt.columns.map columnDefPieces) ++ [keyword .RPAREN ")"])
  | .dropTable stmt => [keyword .DROP "DROP", keyword .TABLE "TABLE", identifier stmt.table]

/-- **A statement as SQL text.** -/
def print (stmt : Statement) : Str := render (statementPieces stmt)

end MyDb.Sql
