/-
**The syntax tree** (`include/ast.h`).

An expression is a literal, a column, or an operator's node over one or two expressions; the kind of
a literal is kept beside its raw text, and an operator is its text as it was spelt. A statement is
one of six, each with the fields its struct has. Unique and shared pointers are the subtrees
themselves, and a missing WHERE or LIMIT is `none`. Nothing is checked here: which trees the parser
can build is `WellFormed`, in the module that prints them.
-/

import MyDatabaseEngine.Basic

namespace MyDb

/-- `LiteralExpr::Kind`. -/
inductive LiteralKind
  | integer
  | float
  | string
  | bool
  deriving DecidableEq, Repr

/-- `Expr`: a variant over the four node types. -/
inductive Expr
  /-- `LiteralExpr`: 42, 3.14, 'hello', true; `value` is the raw text. -/
  | literal (kind : LiteralKind) (value : Str)
  /-- `ColumnRefExpr`: `table` is empty in an unqualified reference. -/
  | columnRef (table column : Str)
  /-- `BinaryExpr`; `op` is the operator's text. -/
  | binary (op : Str) (left right : Expr)
  /-- `UnaryExpr`; `op` is the operator's text. -/
  | unary (op : Str) (operand : Expr)
  deriving DecidableEq, Repr

/-- `ColumnDef`: a column of a CREATE TABLE; `type` is the type's name as written. -/
structure ColumnDef where
  name : Str
  type : Str
  primaryKey : Bool := false
  notNull : Bool := false
  deriving DecidableEq, Repr

/-- `OrderByClause`. -/
structure OrderByClause where
  column : Str
  ascending : Bool := true
  deriving DecidableEq, Repr

/-- `SelectStatement`: `columns` is `["*"]` for all of them. -/
structure SelectStatement where
  columns : List Str
  table : Str
  where? : Option Expr
  orderBy : List OrderByClause
  limit : Option Int
  deriving DecidableEq, Repr

/-- `InsertStatement`: the columns named, and the values given for them. -/
structure InsertStatement where
  table : Str
  columns : List Str
  values : List Expr
  deriving DecidableEq, Repr

/-- `UpdateStatement`: the assignments in the order they are written. -/
structure UpdateStatement where
  table : Str
  assignments : List (Str × Expr)
  where? : Option Expr
  deriving DecidableEq, Repr

/-- `DeleteStatement`. -/
structure DeleteStatement where
  table : Str
  where? : Option Expr
  deriving DecidableEq, Repr

/-- `CreateTableStatement`. -/
structure CreateTableStatement where
  table : Str
  columns : List ColumnDef
  deriving DecidableEq, Repr

/-- `DropTableStatement`. -/
structure DropTableStatement where
  table : Str
  deriving DecidableEq, Repr

/-- `Statement`: any of the six. -/
inductive Statement
  | select (stmt : SelectStatement)
  | insert (stmt : InsertStatement)
  | update (stmt : UpdateStatement)
  | delete (stmt : DeleteStatement)
  | createTable (stmt : CreateTableStatement)
  | dropTable (stmt : DropTableStatement)
  deriving DecidableEq, Repr

end MyDb
