/-
**The grammar the parser reads.**

Every function of the parser recognises a language with one token of lookahead. `Derives` is the
grammar of the four expression functions; a clause or statement is the sequence of its parts.
`Input` is the whole input: a statement and an optional semicolon. The lookahead says where a
sentence stops: a token that goes on with it does not stand behind it.

A language relates a list of tokens, the token behind it and the value read. The rules name no
position and no error, and they do not say in which order alternatives are tried. An operator's
chain leans to the left: its last operand is derived one level below. A column's constraints are the
only loop whose end is decided by a token's text.
-/

import MyDatabaseEngine.Sql.Parser

namespace MyDb.Sql

open Descent

/-! ### Expressions -/

/-- The four levels of the precedence ladder. -/
inductive Level
  | expression
  | comparison
  | unary
  | primary

/-- **Expressions**, each with the token behind it. Operators of one level group to the left. -/
inductive Derives : Level → Language Token Expr
  | expression {s : List Token} {next : Token} {e : Expr} :
    Derives .comparison s next e → Parser.isComparison next = false → Derives .expression s next e
  | connective {s s' : List Token} {operator next : Token} {left right : Expr} :
    Derives .expression s operator left → Parser.isConnective operator = true →
      Derives .comparison s' next right → Parser.isComparison next = false →
      Derives .expression (s ++ operator :: s') next (Parser.binaryExpr operator left right)
  | comparison {s : List Token} {next : Token} {e : Expr} :
    Derives .unary s next e → Derives .comparison s next e
  | compared {s s' : List Token} {operator next : Token} {left right : Expr} :
    Derives .comparison s operator left → Parser.isComparison operator = true →
      Derives .unary s' next right →
      Derives .comparison (s ++ operator :: s') next (Parser.binaryExpr operator left right)
  | unary {s : List Token} {next : Token} {e : Expr} :
    Derives .primary s next e → Derives .unary s next e
  | signed {s : List Token} {operator next : Token} {e : Expr} :
    Parser.isPrefix operator = true → Derives .unary s next e →
      Derives .unary (operator :: s) next (.unary operator.value e)
  | number {tok next : Token} : tok.type = .NUMBER →
      Derives .primary [tok] next (.literal (Parser.numberKind tok.value) tok.value)
  | string {tok next : Token} : tok.type = .STRING →
      Derives .primary [tok] next (.literal .string tok.value)
  | bool {tok next : Token} : Parser.isBool tok = true →
      Derives .primary [tok] next (.literal .bool tok.value)
  | column {tok next : Token} : tok.type = .IDENTIFIER → next.type ≠ .DOT →
      Derives .primary [tok] next (.columnRef [] tok.value)
  | qualified {table dot column next : Token} : table.type = .IDENTIFIER → dot.type = .DOT →
      column.type = .IDENTIFIER →
      Derives .primary [table, dot, column] next (.columnRef table.value column.value)
  | parenthesised {s : List Token} {opening closing next : Token} {e : Expr} :
    opening.type = .LPAREN → Derives .expression s closing e → closing.type = .RPAREN →
      Derives .primary (opening :: (s ++ [closing])) next e

/-- A whole expression: no connective goes on with it. -/
def Expression : Language Token Expr := fun s next e =>
  Derives .expression s next e ∧ Parser.isConnective next = false

/-! ### Clauses -/

/-- One token of a type. -/
def token (type : TokenType) : Language Token Token := .single (Parser.isType type)

/-- A token of a type, or none when the next one is not of it. -/
def token? (type : TokenType) : Language Token Bool := .optional (Parser.isType type)

/-- `item [, item]*` -/
def CommaList {α : Type} (item : Language Token α) : Language Token (List α) :=
  Separated (Parser.isType .COMMA) item

/-- `col1, col2` -/
def ColumnList : Language Token (List Str) :=
  CommaList ((token .IDENTIFIER).bind fun column => .pure column.value)

/-- `[WHERE expr]` -/
def WhereClause : Language Token (Option Expr) :=
  (token? .WHERE).bind fun found =>
    if found then Expression.bind fun e => .pure (some e) else .pure none

/-- `col [DESC] [ASC]` -/
def OrderByItem : Language Token OrderByClause :=
  (token .IDENTIFIER).bind fun column => (token? .DESC).bind fun descending =>
    (token? .ASC).bind fun _ => .pure { column := column.value, ascending := !descending }

/-- `[ORDER BY item [, item]*]` -/
def OrderByClauses : Language Token (List OrderByClause) :=
  (token? .ORDER).bind fun found =>
    if found then (token .BY).bind fun _ => CommaList OrderByItem else .pure []

/-- `[LIMIT n]` -/
def LimitClause : Language Token (Option Int) :=
  (token? .LIMIT).bind fun found =>
    if found then
      (token .NUMBER).bind fun num s _ count => s = [] ∧ ∃ n, stoi num.value = .ok n ∧
        count = some n
    else .pure none

/-- `PRIMARY KEY`, `NOT NULL`, or the end of the constraints. The second word is any identifier. -/
inductive Constraint (column : ColumnDef) : Language Token (Turn ColumnDef ColumnDef)
  | primaryKey {word key next : Token} : word.value = str "PRIMARY" → word.type ≠ .END_OF_FILE →
      key.type = .IDENTIFIER →
        Constraint column [word, key] next (.again { column with primaryKey := true })
  | notNull {word null next : Token} : word.value ≠ str "PRIMARY" → word.type = .NOT →
      null.type = .IDENTIFIER →
        Constraint column [word, null] next (.again { column with notNull := true })
  | none {next : Token} : next.value ≠ str "PRIMARY" → next.type ≠ .NOT →
      Constraint column [] next (.done column)

/-- `name type [constraint]*` -/
def ColumnDefinition : Language Token ColumnDef :=
  (token .IDENTIFIER).bind fun name => (token .IDENTIFIER).bind fun type =>
    Loop Constraint { name := name.value, type := type.value }

/-! ### Statements -/

/-- `*` or a column list. -/
def SelectColumns : Language Token (List Str) :=
  .ifNext (Parser.isType .STAR) (fun _ => .pure [str "*"]) ColumnList

/-- `SELECT columns FROM table [WHERE expr] [ORDER BY items] [LIMIT n]` -/
def Select : Language Token SelectStatement :=
  (token .SELECT).bind fun _ => SelectColumns.bind fun columns => (token .FROM).bind fun _ =>
    (token .IDENTIFIER).bind fun table => WhereClause.bind fun where? =>
    OrderByClauses.bind fun orderBy => LimitClause.bind fun limit =>
    .pure { columns, table := table.value, where?, orderBy, limit }

/-- `INSERT INTO table (columns) VALUES (values)` -/
def Insert : Language Token InsertStatement :=
  (token .INSERT).bind fun _ => (token .INTO).bind fun _ => (token .IDENTIFIER).bind fun table =>
    (token .LPAREN).bind fun _ => ColumnList.bind fun columns => (token .RPAREN).bind fun _ =>
    (token .VALUES).bind fun _ =>
    (token .LPAREN).bind fun _ => (CommaList Expression).bind fun values =>
      (token .RPAREN).bind fun _ =>
    .pure { table := table.value, columns, values }

/-- `col = expr` -/
def Assignment : Language Token (Str × Expr) :=
  (token .IDENTIFIER).bind fun col => (token .EQ).bind fun _ => Expression.bind fun val =>
    .pure (col.value, val)

/-- `UPDATE table SET assignments [WHERE expr]` -/
def Update : Language Token UpdateStatement :=
  (token .UPDATE).bind fun _ => (token .IDENTIFIER).bind fun table => (token .SET).bind fun _ =>
    (CommaList Assignment).bind fun assignments => WhereClause.bind fun where? =>
    .pure { table := table.value, assignments, where? }

/-- `DELETE FROM table [WHERE expr]` -/
def Delete : Language Token DeleteStatement :=
  (token .DELETE).bind fun _ => (token .FROM).bind fun _ => (token .IDENTIFIER).bind fun table =>
    WhereClause.bind fun where? => .pure { table := table.value, where? }

/-- `CREATE TABLE table (column definitions)` -/
def CreateTable : Language Token CreateTableStatement :=
  (token .CREATE).bind fun _ => (token .TABLE).bind fun _ => (token .IDENTIFIER).bind fun table =>
    (token .LPAREN).bind fun _ => (CommaList ColumnDefinition).bind fun columns =>
    (token .RPAREN).bind fun _ => .pure { table := table.value, columns }

/-- `DROP TABLE table` -/
def DropTable : Language Token DropTableStatement :=
  (token .DROP).bind fun _ => (token .TABLE).bind fun _ => (token .IDENTIFIER).bind fun table =>
    .pure { table := table.value }

/-- **A statement**, one of the six. -/
def Sentence : Language Token Statement := fun s next stmt =>
  match stmt with
  | .select stmt => Select s next stmt
  | .insert stmt => Insert s next stmt
  | .update stmt => Update s next stmt
  | .delete stmt => Delete s next stmt
  | .createTable stmt => CreateTable s next stmt
  | .dropTable stmt => DropTable s next stmt

/-- **The input**: a statement and an optional semicolon. -/
def Input : Language Token Statement :=
  Sentence.bind fun stmt => (token? .SEMICOLON).bind fun _ => .pure stmt

end MyDb.Sql
